import SchemaHost.Proofs.Schema.Firsts
import SchemaHost.Proofs.Schema.Searches

/-! # Documents without their comments

Inside the blocks comments have no meaning. Between them a document means the same without its
comments where no header and no reference touches one.
-/

namespace SchemaHost.Schema

open Text

variable {s a r before name behind : List Char}

def Outline.uncommented (o : Outline) : Outline where
  blocks := o.blocks.map fun (before, b) =>
    (uncomment .plain before, { b with body := uncomment .plain b.body })
  tail := uncomment .plain o.tail

theorem sparesHeader_of_sparesHeaders (h : sparesHeaders s = true) :
    sparesHeader false .plain s = true := by
  rw [sparesHeaders] at h
  exact (Bool.and_eq_true_iff.mp h).1

theorem sparesHeaders_of_closeBlock (h : sparesHeaders s = true)
    (hf : findHeader false s = some (before, name, behind))
    (hc : closeBlock .plain 0 behind = some (a, r)) : sparesHeaders r = true := by
  rw [sparesHeaders] at h
  have hrest := (Bool.and_eq_true_iff.mp h).2
  split at hrest
  · next hf' => cases hf.symm.trans hf'
  · next hf' =>
    cases hf.symm.trans hf'
    split at hrest
    · next hc' => cases hc.symm.trans hc'
    · next hc' =>
      cases hc.symm.trans hc'
      exact hrest

/-- The outline of an orderly document whose headers touch no comment, without the comments. -/
theorem read_uncomment (ho : IsOrderly .plain s) (h : sparesHeaders s = true) :
    Outline.read (uncomment .plain s) = (Outline.read s).uncommented := by
  induction hn : s.length using Nat.strong_induction_on generalizing s with
  | _ n ih =>
    have hh := sparesHeader_of_sparesHeaders h
    have hf' : findHeader false (uncomment .plain s) = _ := findHeader_uncomment hh fun _ => rfl
    cases hf : findHeader false s with
    | none =>
      rw [hf] at hf'
      rw [Outline.read_eq_of_no_header hf, Outline.read_eq_of_no_header hf']
      rfl
    | some found =>
      obtain ⟨before, name, behind⟩ := found
      rw [hf] at hf'
      have hbehind := ho.of_findHeader hh hf
      have hc' := closeBlock_uncomment hbehind 0
      cases hc : closeBlock .plain 0 behind with
      | none =>
        rw [hc] at hc'
        rw [Outline.read_eq_of_open hf hc, Outline.read_eq_of_open hf' hc']
        rfl
      | some closed =>
        obtain ⟨body, rest⟩ := closed
        rw [hc] at hc'
        have hlt : rest.length < n := by
          rw [← hn]
          exact Nat.lt_trans (length_closeBlock hc) (length_findHeader hf)
        have hspares := sparesHeaders_of_closeBlock h hf hc
        rw [Outline.read_eq_of_closeBlock hf hc, Outline.read_eq_of_closeBlock hf' hc',
          ih _ hlt (hbehind.of_closeBlock hc) hspares rfl]
        rfl

theorem definitions_uncomment (b : Block) :
    ({ b with body := uncomment .plain b.body } : Block).definitions = b.definitions := by
  rw [Block.definitions_eq, Block.definitions_eq, definitionTexts_uncomment]

theorem outside_uncommented (o : Outline) :
    o.uncommented.outside = o.outside.map (uncomment .plain) := by
  simp [Outline.outside, Outline.uncommented, Function.comp_def]

theorem tableBlocks_uncommented (o : Outline) :
    o.uncommented.tableBlocks =
      o.tableBlocks.map fun b => { b with body := uncomment .plain b.body } := by
  have hmap : o.uncommented.blocks.map (·.2) =
      (o.blocks.map (·.2)).map fun b => { b with body := uncomment .plain b.body } := by
    simp [Outline.uncommented, Function.comp_def]
  rw [Outline.tableBlocks_eq, Outline.tableBlocks_eq, hmap, firstsIn_map]
  rfl

/-- Where its references touch no comment, an outline makes the same model without the comments. -/
theorem model_uncommented {o : Outline}
    (h : ∀ t ∈ o.outside, sparesReferences false .plain t = true) :
    o.uncommented.model = o.model := by
  have hreferences : o.uncommented.outside.flatMap (referencesIn false) =
      o.outside.flatMap (referencesIn false) := by
    rw [outside_uncommented, List.flatMap_map]
    apply List.flatMap_congr
    intro t ht
    exact referencesIn_uncomment (h t ht) fun _ => rfl
  have htable (b : Block) :
      ({ b with body := uncomment .plain b.body } : Block).table = b.table := by
    rw [Block.table, definitions_uncomment]
    rfl
  have hrelationships (b : Block) :
      ({ b with body := uncomment .plain b.body } : Block).relationships = b.relationships := by
    rw [Block.relationships, definitions_uncomment]
    rfl
  simp only [Outline.model, hreferences, tableBlocks_uncommented, List.map_map, List.flatMap_map,
    Function.comp_def, htable, hrelationships]

def uncommented (document : String) : String :=
  String.ofList (uncomment .plain document.toList)

/-- A document means the same without its comments if all quotes are closed on their lines and all
comments end with a line feed or the document, and if no header and no reference stands in a comment
or in a quoted text, runs over a comment or comes about only without one. -/
theorem ofDocument_uncommented (document : String)
    (hquotes : closesQuotes .plain document.toList = true)
    (hcomments : endsComments .plain document.toList = true)
    (hheaders : sparesHeaders document.toList = true)
    (hreferences : ∀ t ∈ (Outline.read document.toList).outside,
      sparesReferences false .plain t = true) :
    Model.ofDocument (uncommented document) = Model.ofDocument document := by
  rw [Model.ofDocument, Model.ofDocument, uncommented, String.toList_ofList,
    read_uncomment ⟨hquotes, hcomments⟩ hheaders, model_uncommented hreferences]

def lostTable : String :=
  "// Table a \x7b\n  id int\n\x7d\n"

theorem not_forall_uncommented :
    ¬ ∀ document : String, closesQuotes .plain document.toList = true →
      Model.ofDocument (uncommented document) = Model.ofDocument document := by
  intro h
  have hnames := congrArg (fun m => m.tables.map (·.name)) (h lostTable (by decide +kernel))
  simp only [Model.ofDocument, Outline.model, Outline.tableBlocks_eq, List.map_map] at hnames
  revert hnames
  decide +kernel

def commentedBlog : String :=
  "// it's
Table a \x7b // Table b \x7b
  id int // x
  //Ref: a.b > c.d
  u text [default: '//'] // \x7d
\x7d
Ref: a.b > c.d // x
"

theorem ofDocument_uncommented_blog :
    (closesQuotes .plain commentedBlog.toList = true ∧
      endsComments .plain commentedBlog.toList = true ∧
      sparesHeaders commentedBlog.toList = true ∧
      ∀ t ∈ (Outline.read commentedBlog.toList).outside, sparesReferences false .plain t = true) ∧
      uncommented commentedBlog ≠ commentedBlog ∧
      Model.ofDocument (uncommented commentedBlog) = Model.ofDocument commentedBlog := by
  have h : (closesQuotes .plain commentedBlog.toList = true ∧
      endsComments .plain commentedBlog.toList = true ∧
      sparesHeaders commentedBlog.toList = true ∧
      ∀ t ∈ (Outline.read commentedBlog.toList).outside, sparesReferences false .plain t = true) ∧
      uncommented commentedBlog ≠ commentedBlog := by
    decide +kernel
  obtain ⟨⟨hquotes, hcomments, hheaders, hreferences⟩, hne⟩ := h
  exact ⟨⟨hquotes, hcomments, hheaders, hreferences⟩, hne,
    ofDocument_uncommented _ hquotes hcomments hheaders hreferences⟩

end SchemaHost.Schema
