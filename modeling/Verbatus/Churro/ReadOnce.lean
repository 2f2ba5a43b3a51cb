import Verbatus.Churro.Owners
import Verbatus.Churro.Performed

namespace Verbatus.Churro

open Library Library.Checked Python
open Identities (str)

section Shown

/-- The characters of a text that are not ASCII whitespace. -/
def TextRun.shown (run : TextRun) : Str := run.characters.filter visible

def TextBuilder.shown (builder : TextBuilder) : Str := builder.written.filter visible

variable {builder : TextBuilder}

theorem addPoint_shown (point : CodePoint) :
    (builder.addPoint point).shown = builder.shown ++ [point].filter visible := by
  cases seen : visible point with
  | true =>
      obtain ⟨separator, separates, _, written, _⟩ := @addPoint_written builder point seen
      have none : separator.filter visible = [] := by
        rw [List.filter_eq_nil_iff]
        intro other listed shown
        exact not_asciiWhitespace shown (separates.blank other listed)
      rw [TextBuilder.shown, written, List.filter_append, List.filter_append, none, List.nil_append]
      rfl
  | false =>
      have blank : asciiWhitespace point = true := by simpa [visible] using seen
      rw [TextBuilder.shown, (addPoint_blank blank).1, List.filter_cons_of_neg (by simp [seen]),
        List.filter_nil, List.append_nil]
      rfl

theorem add_shown (text : Str) :
    (builder.add text).shown = builder.shown ++ text.filter visible := by
  rw [TextBuilder.add_eq_foldl]
  induction text generalizing builder with
  | nil => rw [List.foldl_nil, List.filter_nil, List.append_nil]
  | cons point text ih =>
      rw [List.foldl_cons, ih, addPoint_shown, List.append_assoc, ← List.filter_append]
      rfl

/-- A text of a walk is read exactly as it stands, its whitespace apart. -/
theorem addText_shown (ident : ℕ) (isTail insideLine : Bool) (text : Option Str) :
    (addText builder text insideLine).shown =
      builder.shown ++ (Element.runOf ident isTail text).flatMap TextRun.shown := by
  cases text with
  | none => rw [addText, Element.runOf, List.flatMap_nil, List.append_nil]; simp
  | some text =>
      cases text with
      | nil => rw [addText, Element.runOf, List.flatMap_nil, List.append_nil]; simp
      | cons point rest =>
          rw [addText, Element.runOf, List.flatMap_singleton, TextRun.shown]
          · split_ifs with inside blank
            · exact add_shown _
            · change TextBuilder.shown (TextBuilder.add _ _) = _
              rw [add_shown]
              rfl
            · have none : (point :: rest).filter visible = [] := by
                rw [List.filter_eq_nil_iff]
                intro other listed shown
                exact blank (List.any_eq_true.mpr ⟨other, listed, shown⟩)
              rw [none, List.append_nil]
          · simp

theorem endMark_shown {ident : ℕ} {bounds : ℕ × ℕ} {after : TextBuilder}
    (ended : endMark builder ident = .ok (bounds, after)) : after.shown = builder.shown := by
  rw [endMark, TextBuilder.endMark] at ended
  split at ended
  · split_ifs at ended
    · cases ended
      rfl
    · cases ended
  · cases ended

theorem breakIf_shown (isLine : Bool) : (breakIf isLine builder).shown = builder.shown := by
  cases isLine <;> rfl

theorem beginSpan_shown (child : Element) : (beginSpan child builder).2.shown = builder.shown := by
  rw [beginSpan]
  split_ifs <;> rfl

theorem endSpan_shown {child : Element} {mark : Option ℕ} {walked after : Walked}
    (ended : endSpan child mark walked = .ok after) : after.builder.shown = walked.builder.shown := by
  cases mark with
  | none =>
      cases ended
      rfl
  | some ident =>
      rw [endSpan, bind_eq_ok] at ended
      obtain ⟨⟨⟨start, stop⟩, builder⟩, closed, same⟩ := ended
      cases same
      exact endMark_shown closed

mutual

/-- A walk reads every text inside its element once, in document order. -/
theorem walk_shown (element : Element) {insideLine : Bool} {depth lines : ℕ} {walked after : Walked}
    (returned : walk element insideLine depth walked = .ok (lines, after)) :
    after.builder.shown = walked.builder.shown ++ element.innerRuns.flatMap TextRun.shown := by
  obtain ⟨ident, tag, text, children, tail⟩ := element
  rw [walk] at returned
  split_ifs at returned with deep
  rw [walkChildren_shown children returned, Element.innerRuns, List.flatMap_append,
    addText_shown ident false, List.append_assoc]

theorem walkChildren_shown (children : List Element) {insideLine : Bool} {depth lines : ℕ}
    {walked after : Walked}
    (returned : walkChildren children insideLine depth walked = .ok (lines, after)) :
    after.builder.shown =
      walked.builder.shown ++ (Element.childRuns children).flatMap TextRun.shown := by
  cases children with
  | nil =>
      rw [walkChildren] at returned
      cases returned
      rw [Element.childRuns, List.flatMap_nil, List.append_nil]
  | cons child rest =>
      rw [walkChildren] at returned
      obtain ⟨⟨count, inner⟩, down, returned⟩ := bind_eq_ok.mp returned
      obtain ⟨ended, closing, returned⟩ := bind_eq_ok.mp returned
      obtain ⟨⟨more, final⟩, across, same⟩ := bind_eq_ok.mp returned
      cases same
      have inside : inner.builder.shown =
          walked.builder.shown ++ child.innerRuns.flatMap TextRun.shown := by
        rw [walk_shown child down, breakIf_shown]
        exact congrArg (· ++ _) (beginSpan_shown child)
      rw [walkChildren_shown rest across, addText_shown child.ident true, endSpan_shown closing,
        breakIf_shown, inside, Element.childRuns, List.flatMap_append, List.flatMap_append,
        List.append_assoc, List.append_assoc, List.append_assoc]
      rfl

end

end Shown

section Documents

/-- What every step of a loop appends is what the loop appends. -/
theorem foldlM_append {ε α β γ : Type} {step : β → α → Except ε β} (read : β → List γ)
    (piece : α → List γ) {elements : List α}
    (steps : ∀ value, ∀ element ∈ elements, ∀ next, step value element = .ok next →
      read next = read value ++ piece element)
    {value result : β} (returned : elements.foldlM step value = .ok result) :
    read result = read value ++ elements.flatMap piece := by
  induction elements generalizing value with
  | nil =>
      cases returned
      rw [List.flatMap_nil, List.append_nil]
  | cons element elements ih =>
      rw [List.foldlM_cons, bind_eq_ok] at returned
      obtain ⟨next, made, rest⟩ := returned
      rw [ih (fun value other later => steps value other (.tail _ later)) rest,
        steps value element (.head _) next made, List.flatMap_cons, List.append_assoc]

/-- The texts a page's walks read: its headers, its bodies and its footers. -/
def transcribedOf (page : Element) : List TextRun :=
  pageSectionNames.flatMap fun name =>
    ((pageSections page).1.filter (·.localName = name)).flatMap Element.innerRuns

/-- The texts the walks of a document read, page by page. -/
def transcribedRuns (root : Element) : List TextRun := (pagesOf root).flatMap transcribedOf

variable {state after : Flattening}

theorem flattenSection_shown {pageOrdinal : ℕ} {name : Str} {element : Element}
    (returned : flattenSection pageOrdinal name state element = .ok after) :
    after.walked.builder.shown =
      state.walked.builder.shown ++ element.innerRuns.flatMap TextRun.shown := by
  rw [flattenSection] at returned
  obtain ⟨⟨lines, inner⟩, walking, returned⟩ := bind_eq_ok.mp returned
  obtain ⟨⟨⟨start, stop⟩, builder⟩, closing, same⟩ := bind_eq_ok.mp returned
  cases same
  change builder.shown = _
  rw [endMark_shown closing, walk_shown element walking]
  rfl

theorem flattenSection_findings {pageOrdinal : ℕ} {name : Str} {element : Element}
    (returned : flattenSection pageOrdinal name state element = .ok after) :
    after.findings = state.findings := by
  rw [flattenSection] at returned
  obtain ⟨⟨lines, inner⟩, walking, returned⟩ := bind_eq_ok.mp returned
  obtain ⟨⟨⟨start, stop⟩, builder⟩, closing, same⟩ := bind_eq_ok.mp returned
  cases same
  rfl

theorem flattenPage_shown {page : Element × ℕ} (returned : flattenPage state page = .ok after) :
    after.walked.builder.shown =
      state.walked.builder.shown ++ (transcribedOf page.1).flatMap TextRun.shown := by
  rw [flattenPage] at returned
  have read := foldlM_append (fun state : Flattening => state.walked.builder.shown)
    (fun name => (((pageSections page.1).1.filter (·.localName = name)).flatMap
      Element.innerRuns).flatMap TextRun.shown)
    (fun value name _ next made => by
      rw [List.flatMap_assoc]
      exact foldlM_append (fun state : Flattening => state.walked.builder.shown) _
        (fun value element _ next one => flattenSection_shown one) made) returned
  rw [transcribedOf, List.flatMap_assoc, read]
  split_ifs <;> rfl

theorem flattenPage_findings {page : Element × ℕ} (returned : flattenPage state page = .ok after) :
    after.findings = state.findings ++
      if (pageSections page.1).2 then [.pageTextOutsideSections page.2] else [] := by
  rw [flattenPage] at returned
  refine foldlM_keep (fun value : Flattening => value.findings = state.findings ++
    if (pageSections page.1).2 then [.pageTextOutsideSections page.2] else [])
    (fun between name listed next here made => ?_) rfl returned
  refine foldlM_keep (fun value : Flattening => value.findings = state.findings ++
    if (pageSections page.1).2 then [.pageTextOutsideSections page.2] else [])
    (fun inner element _ next there one => ?_) here made
  rw [flattenSection_findings one, there]

end Documents

section Counting

open Element

variable (run : TextRun) (root : Element)

theorem transcribedOf_count (page : Element) :
    (transcribedOf page).count run = (pageRuns page).count run := by
  have sections : ∀ own ∈ ownSectionsOf page.children, own.isSection = true := fun own listed =>
    (ownSectionsOf_iters listed).2
  rw [transcribedOf, pageSections_eq, pageRuns]
  dsimp only
  generalize ownSectionsOf page.children = owned at sections
  induction owned with
  | nil => rfl
  | cons own owned ih =>
      have others := ih fun other listed => sections other (.tail _ listed)
      have name : own.localName ∈ pageSectionNames := by simpa [isSection] using sections own (.head _)
      have differ : str "Header" ≠ str "Body" ∧ str "Header" ≠ str "Footer" ∧
        str "Body" ≠ str "Footer" := by decide
      obtain ⟨first, second, third⟩ := differ
      rw [List.flatMap_cons, List.count_append, ← others]
      simp only [pageSectionNames, List.mem_cons, List.not_mem_nil, or_false] at name
      simp only [pageSectionNames, List.flatMap_cons, List.flatMap_nil, List.append_nil,
        List.count_append, List.filter_cons]
      rcases name with same | same | same
      · simp only [same, first, second, decide_true, decide_false, if_true, Bool.false_eq_true, if_false,
          List.flatMap_cons, List.count_append]
        omega
      · simp only [same, first.symm, third, decide_true, decide_false, if_true, Bool.false_eq_true,
          if_false, List.flatMap_cons, List.count_append]
        omega
      · simp only [same, second.symm, third.symm, decide_true, decide_false, if_true,
          Bool.false_eq_true, if_false, List.flatMap_cons, List.count_append]
        omega

/-- The hidden pages of a document, each inside a section or inside the metadata. -/
def hiddenIn : List Element := hiddenPagesAmong .document root.children

def openIn : List Element := openPagesAmong .document root.children

/-- What the walks read: the sections of the open pages, and those of the hidden pages again. -/
theorem transcribedRuns_count : (transcribedRuns root).count run =
    ((openIn root).flatMap pageRuns).count run + ((hiddenIn root).flatMap pageRuns).count run := by
  have each : ∀ pages : List Element,
      (pages.flatMap transcribedOf).count run = (pages.flatMap pageRuns).count run := by
    intro pages
    induction pages with
    | nil => rfl
    | cons page pages ih =>
        rw [List.flatMap_cons, List.flatMap_cons, List.count_append, List.count_append, ih,
          transcribedOf_count]
  rw [transcribedRuns, each, pagesOf,
    ((pagesAmong_perm .document root.children).flatMap_right pageRuns).count_eq, List.flatMap_append,
    List.count_append]
  rfl

theorem innerRuns_count : root.innerRuns.count run =
    ((outsideRuns root).map Prod.snd).count run + ((openIn root).flatMap pageRuns).count run +
      (metadataAmong root.children).count run := by
  have owned := childRuns_owned run .document root.children
  have tags : (root.textRun.map fun run => (Scope.document, run)).map Prod.snd = root.textRun := by
    rw [List.map_map]
    exact List.map_id _
  rw [outsideRuns_eq, List.map_append, tags, List.count_append]
  obtain ⟨ident, tag, text, children, tail⟩ := root
  rw [innerRuns, List.count_append]
  change _ + (childRuns children).count run = (runOf ident false text).count run + _ + _ + _
  change (childRuns children).count run = _ + _ + (metadataAmong children).count run at owned
  rw [owned, openIn]
  change _ = _ + _ + _ + (metadataAmong children).count run
  omega

/-- All that consumes a text: once for its owner, and once more for every hidden page's section. -/
theorem consumed_count : (transcribedRuns root).count run +
    ((outsideRuns root).map Prod.snd).count run + (metadataAmong root.children).count run =
      root.innerRuns.count run + ((hiddenIn root).flatMap pageRuns).count run := by
  rw [transcribedRuns_count, innerRuns_count]
  omega

variable {root}

mutual

theorem hidden_listed {scope : Scope} {element page : Element}
    (hidden : page ∈ element.hiddenPages scope) : page ∈ iters element.children ∧ page.isPage = true := by
  obtain ⟨ident, tag, text, children, tail⟩ := element
  rw [hiddenPages] at hidden
  split_ifs at hidden with isPage closed
  · exact hiddenAmong_listed hidden
  · exact List.mem_filter.mp hidden
  · exact hiddenAmong_listed hidden

theorem hiddenAmong_listed {scope : Scope} {children : List Element} {page : Element}
    (hidden : page ∈ hiddenPagesAmong scope children) : page ∈ iters children ∧ page.isPage = true := by
  cases children with
  | nil => rw [hiddenPagesAmong] at hidden; cases hidden
  | cons child rest =>
      rw [hiddenPagesAmong, List.mem_append] at hidden
      rw [iters, List.mem_append]
      rcases hidden with here | later
      · obtain ⟨below, page'⟩ := hidden_listed here
        exact ⟨.inl (mem_iter.mpr (.inr below)), page'⟩
      · obtain ⟨below, page'⟩ := hiddenAmong_listed later
        exact ⟨.inr below, page'⟩

end

theorem pageRuns_subset (page : Element) : page.pageRuns ⊆ page.innerRuns := by
  intro run listed
  obtain ⟨own, inside, held⟩ := List.mem_flatMap.mp listed
  exact innerRuns_subset (mem_iter.mpr (.inr (ownSectionsOf_iters inside).1)) held

theorem hiddenRuns_subset : (hiddenIn root).flatMap pageRuns ⊆ root.innerRuns := by
  intro run listed
  obtain ⟨page, hidden, held⟩ := List.mem_flatMap.mp listed
  have below := (hiddenAmong_listed hidden).1
  exact innerRuns_subset (mem_iter.mpr (.inr below)) (pageRuns_subset page held)

mutual

theorem innerRuns_placed {element : Element} {run : TextRun} (listed : run ∈ element.innerRuns) :
    (run.element = element.ident ∧ run.isTail = false) ∨
      run.element ∈ (iters element.children).map ident := by
  obtain ⟨own, tag, text, children, tail⟩ := element
  rw [innerRuns, List.mem_append] at listed
  rcases listed with here | below
  · refine .inl ?_
    cases text with
    | none => simp [runOf] at here
    | some text =>
        cases text with
        | nil => simp [runOf] at here
        | cons point rest =>
            rw [runOf, List.mem_singleton] at here
            rw [here]
            exact ⟨rfl, rfl⟩
  · exact .inr (childRuns_placed below)

theorem childRuns_placed {children : List Element} {run : TextRun} (listed : run ∈ childRuns children) :
    run.element ∈ (iters children).map ident := by
  cases children with
  | nil => rw [childRuns] at listed; cases listed
  | cons child rest =>
      rw [childRuns, List.mem_append, List.mem_append] at listed
      rw [iters, List.map_append, List.mem_append]
      rcases listed with (inside | tail) | later
      · rcases innerRuns_placed inside with ⟨same, _⟩ | below
        · exact .inl (List.mem_map.mpr ⟨child, self_mem_iter child, same.symm⟩)
        · obtain ⟨other, held, same⟩ := List.mem_map.mp below
          exact .inl (List.mem_map.mpr ⟨other, mem_iter.mpr (.inr held), same⟩)
      · exact .inl (List.mem_map.mpr ⟨child, self_mem_iter child, (tailRun_placed tail).1.symm⟩)
      · exact .inr (childRuns_placed later)

theorem tailRun_placed {element : Element} {run : TextRun} (listed : run ∈ element.tailRun) :
    run.element = element.ident ∧ run.isTail = true := by
  obtain ⟨own, tag, text, children, tail⟩ := element
  change run ∈ runOf own true tail at listed
  cases tail with
  | none => simp [runOf] at listed
  | some text =>
      cases text with
      | nil => simp [runOf] at listed
      | cons point rest =>
          rw [runOf, List.mem_singleton] at listed
          rw [listed]
          exact ⟨rfl, rfl⟩

end

theorem runOf_nodup (ident : ℕ) (isTail : Bool) (text : Option Str) : (runOf ident isTail text).Nodup := by
  cases text with
  | none => simp [runOf]
  | some text => cases text <;> simp [runOf]

mutual

/-- Elements told apart have texts told apart. -/
theorem innerRuns_nodup {element : Element} (distinct : (element.iter.map ident).Nodup) :
    element.innerRuns.Nodup := by
  obtain ⟨own, tag, text, children, tail⟩ := element
  rw [iter, List.map_cons, List.nodup_cons] at distinct
  rw [innerRuns]
  refine List.nodup_append.mpr ⟨runOf_nodup own false text, childRuns_nodup distinct.2, ?_⟩
  intro run here other below same
  subst same
  have placed := childRuns_placed below
  have listed : run ∈ (mk own tag text [] tail).innerRuns := List.mem_append_left _ here
  rcases innerRuns_placed listed with ⟨same, _⟩ | none
  · rw [same] at placed
    exact distinct.1 placed
  · cases none

theorem childRuns_nodup {children : List Element} (distinct : ((iters children).map ident).Nodup) :
    (childRuns children).Nodup := by
  cases children with
  | nil => rw [childRuns]; exact .nil
  | cons child rest =>
      rw [iters, List.map_append, List.nodup_append] at distinct
      obtain ⟨first, others, apart⟩ := distinct
      have own := first
      obtain ⟨which, tag, text, children, tail⟩ := child
      rw [iter, List.map_cons, List.nodup_cons] at own
      rw [childRuns]
      refine List.nodup_append.mpr ⟨List.nodup_append.mpr ⟨innerRuns_nodup first,
        runOf_nodup _ _ _, ?_⟩, childRuns_nodup others, ?_⟩
      · intro run inside other tailed same
        subst same
        obtain ⟨same, isTail⟩ := tailRun_placed tailed
        rcases innerRuns_placed inside with ⟨_, text⟩ | below
        · rw [isTail] at text
          cases text
        · rw [same] at below
          exact own.1 below
      · intro run earlier other later same
        subst same
        refine apart run.element ?_ run.element (childRuns_placed later) rfl
        have both : run ∈ childRuns [mk which tag text children tail] := by
          rw [childRuns, childRuns, List.append_nil]
          exact earlier
        have placed := childRuns_placed both
        rwa [iters, iters, List.append_nil] at placed

end

end Counting

section Outside

open Element

variable {root : Element}

theorem intercalate_eq_nil {separator : Str} {words : List Str} (some : [] ∉ words) :
    separator.intercalate words = [] ↔ words = [] := by
  cases words with
  | nil => simp
  | cons word words =>
      have given : word ≠ [] := fun empty => some (empty ▸ .head _)
      cases words with
      | nil => simpa using given
      | cons next words => simp [given]

theorem outsideLine_eq_nil (run : TextRun) :
    [space].intercalate (textRuns run.characters) = [] ↔ ¬ Inky run := by
  rw [intercalate_eq_nil, textRuns_eq_nil, Inky, List.any_eq_true]
  · simp [visible]
  · simp [textRuns]

/-- The outside text is empty when every text outside is blank. -/
theorem outsideText_ne_nil : outsideText root ≠ [] ↔ ∃ run ∈ outsideRuns root, Inky run.2 := by
  rw [outsideText, Ne, intercalate_eq_nil (by simp), List.filter_eq_nil_iff]
  constructor
  · intro some
    by_contra none
    refine some fun line listed => ?_
    obtain ⟨run, inside, rfl⟩ := List.mem_map.mp listed
    have blank := (outsideLine_eq_nil run.2).mpr fun ink => none ⟨run, inside, ink⟩
    simp [blank]
  · rintro ⟨run, inside, ink⟩ none
    have blank := none _ (List.mem_map_of_mem inside)
    simp only [decide_not, Bool.not_eq_true', decide_eq_false_iff_not, not_not] at blank
    exact (outsideLine_eq_nil run.2).mp blank ink

/-- Ink outside the transcription stands outside a page's sections or outside every page. -/
theorem outsideInk_iff : (∃ run ∈ outsideRuns root, Inky run.2) ↔
    (∃ page ∈ openIn root, strayPage page = true) ∨ InkIn .document (outsideRuns root) := by
  have pages : InkIn .page (outsideRuns root) ↔ ∃ page ∈ openIn root, strayPage page = true := by
    rw [outsideRuns_eq, inkIn_append, textRun, inkIn_runOf, inkIn_pages .document root.children]
    simp [openIn]
  rw [← pages]
  constructor
  · rintro ⟨run, listed, ink⟩
    cases scope : run.1 with
    | page => exact .inl ⟨run, listed, scope, ink⟩
    | document => exact .inr ⟨run, listed, scope, ink⟩
  · rintro (⟨run, listed, _, ink⟩ | ⟨run, listed, _, ink⟩)
    · exact ⟨run, listed, ink⟩
    · exact ⟨run, listed, ink⟩

end Outside

/-- A parsed answer: its root is the grammar's, and no element stands in it twice. -/
structure Document where
  root : Element
  grammar : root.localName = documentRootElement
  distinct : (root.iter.map Element.ident).Nodup

/-- Every text is consumed once, by a section's walk, as outside text or inside the metadata; the
    transcription is the walked texts; and a finding says whether there is outside text. -/
structure ReadOnce (root : Element) (flattened : Flattened) : Prop where
  owned : ∀ run ∈ root.innerRuns,
    (transcribedRuns root).count run + ((outsideRuns root).map Prod.snd).count run +
      (Element.metadataAmong root.children).count run = 1
  text : flattened.text.filter visible = (transcribedRuns root).flatMap TextRun.shown
  once : (transcribedRuns root).Nodup
  found : ((∃ pageOrdinal, .pageTextOutsideSections pageOrdinal ∈ flattened.findings) ∨
    .documentTextOutsidePages ∈ flattened.findings) ↔ outsideText root ≠ []

/-- No page that lies inside a section of a page or inside the document's metadata has a section
    with a text in it; and where one has text that is not blank, other such text lies outside the
    transcription. -/
structure Undisturbed (root : Element) : Prop where
  sections : ∀ page ∈ Element.hiddenPagesAmong .document root.children,
    ∀ section_ ∈ Element.iters page.children, section_.isSection → section_.innerRuns = []
  outside : (∃ page ∈ Element.hiddenPagesAmong .document root.children,
      ∃ run ∈ page.innerRuns, Element.Inky run) →
    (∃ run ∈ root.textRun, Element.Inky run) ∨
      ∃ run ∈ Element.outsideAmong .document root.children, Element.Inky run.2

section Flattened

open Element

variable {root : Element} {flattened : Flattened}

theorem flattenDocument_text (returned : flattenDocument root = .ok flattened) :
    flattened.text.filter visible = (transcribedRuns root).flatMap TextRun.shown := by
  rw [flattenDocument] at returned
  obtain ⟨state, walked, same⟩ := bind_eq_ok.mp returned
  cases same
  have read := foldlM_append (fun state : Flattening => state.walked.builder.shown)
    (fun page : Element × ℕ => (transcribedOf page.1).flatMap TextRun.shown)
    (fun value page _ next made => flattenPage_shown made) walked
  have pages : ((pagesOf root).zipIdx 1).flatMap
      (fun page : Element × ℕ => (transcribedOf page.1).flatMap TextRun.shown) =
        (pagesOf root).flatMap fun page => (transcribedOf page).flatMap TextRun.shown := by
    conv_rhs => rw [← List.zipIdx_map_fst 1 (pagesOf root), List.flatMap_map]
  rw [transcribedRuns, List.flatMap_assoc, ← pages]
  exact read

/-- A finding is made when ink lies outside a page's sections, or outside every page. -/
theorem flattenDocument_found (returned : flattenDocument root = .ok flattened) :
    ((∃ pageOrdinal, .pageTextOutsideSections pageOrdinal ∈ flattened.findings) ∨
      .documentTextOutsidePages ∈ flattened.findings) ↔
      (∃ page ∈ pagesOf root, strayPage page = true) ∨ InkIn .document (outsideRuns root) := by
  rw [flattenDocument] at returned
  obtain ⟨state, walked, same⟩ := bind_eq_ok.mp returned
  cases same
  have read := foldlM_append Flattening.findings _
    (fun value page _ next made => flattenPage_findings made) walked
  rw [List.nil_append] at read
  dsimp only
  rw [read]
  have document : ((outsideRuns root).any fun run =>
      run.1 = .document && run.2.characters.any visible) = true ↔ InkIn .document (outsideRuns root) := by
    simp [InkIn, Inky]
  rw [← document]
  have pages : (∃ page ∈ pagesOf root, strayPage page = true) ↔
      ∃ page ∈ (pagesOf root).zipIdx 1, strayPage page.1 = true := by
    constructor
    · rintro ⟨page, listed, stray⟩
      rw [← List.zipIdx_map_fst 1 (pagesOf root)] at listed
      obtain ⟨pair, inside, rfl⟩ := List.mem_map.mp listed
      exact ⟨pair, inside, stray⟩
    · rintro ⟨pair, inside, stray⟩
      refine ⟨pair.1, ?_, stray⟩
      rw [← List.zipIdx_map_fst 1 (pagesOf root)]
      exact List.mem_map_of_mem inside
  rw [pages]
  have stray : ∀ page : Element, (pageSections page).2 = strayPage page := by
    intro page
    rw [pageSections_eq, strayPage]
  simp only [List.mem_append, List.mem_flatMap, stray]
  constructor
  · rintro (⟨ordinal, ⟨page, inside, listed⟩ | listed⟩ | ⟨page, inside, listed⟩ | listed)
    · split_ifs at listed with ink
      · exact .inl ⟨page, inside, ink⟩
      · cases listed
    · split_ifs at listed
      · cases List.mem_singleton.mp listed
      · cases listed
    · split_ifs at listed
      · cases List.mem_singleton.mp listed
      · cases listed
    · split_ifs at listed with ink
      · exact .inr ink
      · cases listed
  · rintro (⟨page, inside, ink⟩ | ink)
    · exact .inl ⟨page.2, .inl ⟨page, inside, by rw [if_pos ink]; exact .head _⟩⟩
    · exact .inr (.inr (by rw [if_pos ink]; exact .head _))

theorem mem_pagesOf (page : Element) :
    page ∈ pagesOf root ↔ page ∈ openIn root ∨ page ∈ hiddenIn root := by
  rw [pagesOf, (pagesAmong_perm .document root.children).mem_iff, List.mem_append, openIn, hiddenIn]

theorem undisturbed_outside : ((∃ run ∈ root.textRun, Inky run) ∨
    ∃ run ∈ outsideAmong .document root.children, Inky run.2) ↔
      ∃ run ∈ outsideRuns root, Inky run.2 := by
  rw [outsideRuns_eq]
  simp only [List.mem_append, List.mem_map, or_and_right, exists_or]
  simp

/-- Nothing is read twice when the sections of hidden pages hold no text. -/
theorem hiddenRuns_eq_nil : (hiddenIn root).flatMap pageRuns = [] ↔
    ∀ page ∈ hiddenIn root, ∀ section_ ∈ iters page.children, section_.isSection = true →
      section_.innerRuns = [] := by
  rw [List.flatMap_eq_nil_iff]
  constructor
  · intro none page hidden section_ inside isOne
    have own : ∀ other ∈ hiddenIn root, ∀ own ∈ ownSectionsOf other.children,
        section_.innerRuns ⊆ own.innerRuns → section_.innerRuns = [] := by
      intro other listed own held covers
      have empty := List.flatMap_eq_nil_iff.mp (none other listed) own held
      rw [empty] at covers
      exact List.subset_nil.mp covers
    rcases sections_owned inside isOne with ⟨held, owned, covers⟩ | ⟨inner, below, isPage, held, owned, covers⟩
    · exact own page hidden held owned covers
    · have nested := hiddenPagesAmong_inner hidden (mem_iter.mpr (.inr below)) isPage
      exact own inner nested held owned covers
  · intro none page hidden
    rw [pageRuns, List.flatMap_eq_nil_iff]
    intro own owned
    obtain ⟨inside, isOne⟩ := ownSectionsOf_iters owned
    exact none page hidden own inside isOne

/-- Ink inside a hidden page whose sections are empty lies outside the sections of hidden pages. -/
theorem hidden_stray (none : (hiddenIn root).flatMap pageRuns = []) :
    (∃ page ∈ hiddenIn root, ∃ run ∈ page.innerRuns, Inky run) ↔
      ∃ page ∈ hiddenIn root, strayPage page = true := by
  constructor
  · rintro ⟨page, hidden, run, inside, ink⟩
    obtain ⟨below, isPage⟩ := hiddenAmong_listed hidden
    have open_ : ∀ other ∈ page.openPages .page, other ∈ hiddenIn root := by
      intro other listed
      have inPage := (pages_perm .page page).symm.subset (List.mem_append_left _ listed)
      obtain ⟨inside, other'⟩ := List.mem_filter.mp inPage
      exact hiddenPagesAmong_inner hidden inside other'
    have unread : ((page.openPages .page).flatMap pageRuns) = [] := by
      rw [List.flatMap_eq_nil_iff] at none ⊢
      exact fun other listed => none other (open_ other listed)
    have kept : page.ownedRuns .page = [] := by
      obtain ⟨ident, tag, text, children, tail⟩ := page
      rw [ownedRuns, ownSections, if_pos isPage]
      rfl
    have counted := innerRuns_owned run .page page
    rw [unread, kept] at counted
    have outside : run ∈ (page.outsideIn .page).map Prod.snd := by
      rw [← List.count_pos_iff, ← Nat.add_zero (List.count run _), ← Nat.add_zero (_ + 0)]
      have positive := List.count_pos_iff.mpr inside
      rw [counted] at positive
      exact positive
    obtain ⟨pair, listed, rfl⟩ := List.mem_map.mp outside
    have scoped_ : InkIn .page (page.outsideIn .page) := by
      refine ⟨pair, listed, ?_, ink⟩
      exact outsideIn_page pair listed
    rcases (inkIn_page .page page).mp scoped_ with ⟨other, opened, stray⟩ | ⟨_, stray⟩
    · exact ⟨other, open_ other opened, stray⟩
    · obtain ⟨ident, tag, text, children, tail⟩ := page
      rw [strayInside, if_pos isPage] at stray
      cases stray
  · rintro ⟨page, hidden, stray⟩
    obtain ⟨below, isPage⟩ := hiddenAmong_listed hidden
    have ink : InkIn .page (page.outsideIn .page) := by
      refine (inkIn_page .page page).mpr (.inl ⟨page, ?_, stray⟩)
      obtain ⟨ident, tag, text, children, tail⟩ := page
      rw [openPages, if_pos isPage]
      exact .head _
    obtain ⟨run, listed, _, inky⟩ := ink
    refine ⟨page, hidden, run.2, ?_, inky⟩
    have counted := innerRuns_owned run.2 .page page
    have positive := List.count_pos_iff.mpr (List.mem_map_of_mem (f := Prod.snd) listed)
    rw [← List.count_pos_iff, counted]
    omega

end Flattened

section Results

open Element

theorem owned_iff {root : Element} (distinct : root.innerRuns.Nodup) :
    (∀ run ∈ root.innerRuns, (transcribedRuns root).count run +
      ((outsideRuns root).map Prod.snd).count run + (metadataAmong root.children).count run = 1) ↔
      (hiddenIn root).flatMap pageRuns = [] := by
  have single : ∀ run ∈ root.innerRuns, root.innerRuns.count run = 1 := fun run listed =>
    List.count_eq_one_of_mem distinct listed
  constructor
  · intro each
    rw [List.eq_nil_iff_forall_not_mem]
    intro run hidden
    have listed := hiddenRuns_subset hidden
    have one := each run listed
    have twice := List.count_pos_iff.mpr hidden
    rw [consumed_count, single run listed] at one
    omega
  · intro none run listed
    rw [consumed_count, none, single run listed, List.count_nil]

/-- Every character of an answer is read exactly once if and only if its hidden pages are
    undisturbed. -/
theorem flattenDocument_readOnce (document : Document) (flattened : Flattened)
    (accepted : flattenDocument document.root = .ok flattened) :
    ReadOnce document.root flattened ↔ Undisturbed document.root := by
  have distinct := innerRuns_nodup document.distinct
  have finding : ((∃ pageOrdinal, .pageTextOutsideSections pageOrdinal ∈ flattened.findings) ∨
      .documentTextOutsidePages ∈ flattened.findings) ↔
        (∃ page ∈ hiddenIn document.root, strayPage page = true) ∨
          outsideText document.root ≠ [] := by
    rw [flattenDocument_found accepted, outsideText_ne_nil, outsideInk_iff]
    simp only [mem_pagesOf, or_and_right, exists_or]
    rw [or_comm (a := ∃ page, page ∈ openIn document.root ∧ _), or_assoc]
  constructor
  · intro once
    have none := (owned_iff distinct).mp once.owned
    refine ⟨hiddenRuns_eq_nil.mp none, fun inked => ?_⟩
    rw [undisturbed_outside, ← outsideText_ne_nil]
    exact once.found.mp (finding.mpr (.inl ((hidden_stray none).mp inked)))
  · intro undisturbed
    have none := hiddenRuns_eq_nil.mpr undisturbed.sections
    refine ⟨(owned_iff distinct).mpr none, flattenDocument_text accepted, ?_, ?_⟩
    · rw [List.nodup_iff_count_le_one]
      intro run
      have whole := consumed_count run document.root
      have single := List.nodup_iff_count_le_one.mp distinct run
      rw [none, List.count_nil] at whole
      omega
    · rw [finding]
      constructor
      · rintro (stray | outside)
        · rw [outsideText_ne_nil, ← undisturbed_outside]
          exact undisturbed.outside ((hidden_stray none).mpr stray)
        · exact outside
      · exact .inr

/-- An element of a made answer. -/
def element (ident : ℕ) (tag : String) (text : Option String) (children : List Element) : Element :=
  .mk ident (some (str tag)) (text.map str) children none

/-- A page inside the body of a page, with a body of its own. -/
def nestedPages : Document where
  root := element 0 "HistoricalDocument" none [element 1 "Page" none [element 2 "Body" (some "a")
    [element 3 "Page" none [element 4 "Body" (some "b") []]]]]
  grammar := by decide
  distinct := by decide

/-- The body of the nested page is read with the body it stands in, and once more. -/
theorem not_readOnce_nestedPages : ¬ ∀ (document : Document) (flattened : Flattened),
    flattenDocument document.root = .ok flattened → ReadOnce document.root flattened := by
  intro all
  have accepted : flattenDocument nestedPages.root = .ok {
      text := str "a\nb\n\nb"
      sections := [⟨1, str "Body", 0, 3, 0⟩, ⟨2, str "Body", 5, 6, 0⟩]
      markedSpans := [], pages := 2, findings := [] } := by
    decide +kernel
  have twice := (all _ _ accepted).owned ⟨4, false, str "b"⟩ (by decide +kernel)
  revert twice
  decide +kernel

/-- Two pages in order, and a text before them. -/
def plainPages : Document where
  root := element 0 "HistoricalDocument" (some "x") [element 1 "Page" none
    [element 2 "Body" (some "a") []], element 3 "Page" none [element 4 "Body" (some "b") []]]
  grammar := by decide
  distinct := by decide

theorem flattenDocument_readOnce_plainPages : ∃ flattened,
    flattenDocument plainPages.root = .ok flattened ∧ flattened.text = str "a\n\nb" ∧
      flattened.findings = [.documentTextOutsidePages] ∧ ReadOnce plainPages.root flattened := by
  have accepted : flattenDocument plainPages.root = .ok {
      text := str "a\n\nb"
      sections := [⟨1, str "Body", 0, 1, 0⟩, ⟨2, str "Body", 3, 4, 0⟩]
      markedSpans := [], pages := 2, findings := [.documentTextOutsidePages] } := by
    decide +kernel
  have none : hiddenPagesAmong .document plainPages.root.children = [] := by decide +kernel
  refine ⟨_, accepted, rfl, rfl, (flattenDocument_readOnce plainPages _ accepted).mpr ⟨?_, ?_⟩⟩
  · rw [none]
    exact fun page listed => absurd listed List.not_mem_nil
  · rw [none]
    rintro ⟨page, listed, _⟩
    cases listed

end Results

end Verbatus.Churro
