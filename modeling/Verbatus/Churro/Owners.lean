import Verbatus.Churro.Flatten

namespace Verbatus.Churro

open Library Python

namespace Element

mutual

/-- Every text inside an element: its own, and the texts and tails of what it holds. -/
def innerRuns : Element → List TextRun
  | mk ident _ text children _ => runOf ident false text ++ childRuns children

def childRuns : List Element → List TextRun
  | [] => []
  | child :: rest => child.innerRuns ++ child.tailRun ++ childRuns rest

end

mutual

/-- The sections an element inside a page gives to that page. -/
def ownSections : Element → List Element
  | mk ident tag text children tail =>
    if (mk ident tag text children tail).isPage then []
    else if (mk ident tag text children tail).isSection then [mk ident tag text children tail]
    else ownSectionsOf children

def ownSectionsOf : List Element → List Element
  | [] => []
  | child :: rest => child.ownSections ++ ownSectionsOf rest

end

mutual

/-- Whether text that is not blank lies inside an element of a page, outside that page's sections
    and outside the pages nested in it. -/
def strayInside : Element → Bool
  | mk ident tag text children tail =>
    if (mk ident tag text children tail).isPage then false
    else if (mk ident tag text children tail).isSection then false
    else hasInk text || strayAmong children

def strayAmong : List Element → Bool
  | [] => false
  | child :: rest => hasInk child.tail || child.strayInside || strayAmong rest

end

/-- Whether the search for outside text leaves an element's inside alone. -/
def isClosed (scope : Scope) (element : Element) : Bool :=
  (scope = .page && element.isSection) || (scope = .document && element.localName = metadataElement)

mutual

/-- The texts outside the transcription inside an element. -/
def outsideIn (scope : Scope) : Element → List (Scope × TextRun)
  | mk ident tag text children tail =>
    if (mk ident tag text children tail).isPage then
      (runOf ident false text).map (.page, ·) ++ outsideAmong .page children
    else if (mk ident tag text children tail).isClosed scope then []
    else (runOf ident false text).map (scope, ·) ++ outsideAmong scope children

def outsideAmong (scope : Scope) : List Element → List (Scope × TextRun)
  | [] => []
  | child :: rest =>
    child.outsideIn scope ++ child.tailRun.map (scope, ·) ++ outsideAmong scope rest

end

mutual

/-- The pages met outside every section of a page and outside the document's metadata. -/
def openPages (scope : Scope) : Element → List Element
  | mk ident tag text children tail =>
    if (mk ident tag text children tail).isPage then
      mk ident tag text children tail :: openPagesAmong .page children
    else if (mk ident tag text children tail).isClosed scope then []
    else openPagesAmong scope children

def openPagesAmong (scope : Scope) : List Element → List Element
  | [] => []
  | child :: rest => child.openPages scope ++ openPagesAmong scope rest

end

mutual

/-- The pages inside a section of a page, or inside the document's metadata. -/
def hiddenPages (scope : Scope) : Element → List Element
  | mk ident tag text children tail =>
    if (mk ident tag text children tail).isPage then hiddenPagesAmong .page children
    else if (mk ident tag text children tail).isClosed scope then
      (iters children).filter (·.isPage)
    else hiddenPagesAmong scope children

def hiddenPagesAmong (scope : Scope) : List Element → List Element
  | [] => []
  | child :: rest => child.hiddenPages scope ++ hiddenPagesAmong scope rest

end

mutual

/-- The texts inside the document's metadata. -/
def metadataIn : Element → List TextRun
  | mk ident tag text children tail =>
    if (mk ident tag text children tail).isPage then []
    else if (mk ident tag text children tail).isClosed .document then
      innerRuns (mk ident tag text children tail)
    else metadataAmong children

def metadataAmong : List Element → List TextRun
  | [] => []
  | child :: rest => child.metadataIn ++ metadataAmong rest

end

/-- The texts of a page's own sections. -/
def pageRuns (page : Element) : List TextRun := (ownSectionsOf page.children).flatMap innerRuns

/-- The texts left to the owner of an element: its page's sections, or the document's metadata. -/
def ownedRuns : Scope → Element → List TextRun
  | .page, element => element.ownSections.flatMap innerRuns
  | .document, element => element.metadataIn

def ownedAmong : Scope → List Element → List TextRun
  | .page, children => (ownSectionsOf children).flatMap innerRuns
  | .document, children => metadataAmong children

@[simp] theorem ownedAmong_nil (scope : Scope) : ownedAmong scope [] = [] := by
  cases scope <;> rfl

theorem ownedAmong_cons (scope : Scope) (child : Element) (rest : List Element) :
    ownedAmong scope (child :: rest) = ownedRuns scope child ++ ownedAmong scope rest := by
  cases scope with
  | page => rw [ownedAmong, ownSectionsOf, List.flatMap_append, ownedRuns, ownedAmong]
  | document => rw [ownedAmong, metadataAmong, ownedRuns, ownedAmong]

theorem not_section_of_page {element : Element} (page : element.isPage = true) :
    element.isSection = false := by
  rw [isPage, decide_eq_true_eq] at page
  rw [isSection, page]
  decide

theorem not_page_of_section {element : Element} (own : element.isSection = true) :
    element.isPage = false := by
  cases page : element.isPage with
  | false => rfl
  | true => rw [not_section_of_page page] at own; cases own

mutual

/-- Every text inside an element has one owner: outside text, a section of an open page, or what is
    left to the owner of the element. -/
theorem innerRuns_owned (run : TextRun) (scope : Scope) (element : Element) :
    element.innerRuns.count run =
      ((element.outsideIn scope).map Prod.snd).count run +
        ((element.openPages scope).flatMap pageRuns).count run +
          (element.ownedRuns scope).count run := by
  obtain ⟨ident, tag, text, children, tail⟩ := element
  have snd : ∀ (scope : Scope) (runs : List TextRun),
      (runs.map fun run => (scope, run)).map Prod.snd = runs := by
    intro scope runs
    rw [List.map_map]
    exact List.map_id _
  rw [innerRuns, outsideIn, openPages]
  split_ifs with page closed
  · have inner := childRuns_owned run .page children
    have left : ownedRuns scope (mk ident tag text children tail) = [] := by
      cases scope with
      | page => rw [ownedRuns, ownSections, if_pos page]; rfl
      | document => rw [ownedRuns, metadataIn, if_pos page]
    have own : pageRuns (mk ident tag text children tail) = ownedAmong .page children := rfl
    rw [left, List.map_append, snd, List.flatMap_cons, own, List.count_append, List.count_append,
      List.count_append, inner, List.count_nil]
    omega
  · have left : ownedRuns scope (mk ident tag text children tail) =
        runOf ident false text ++ childRuns children := by
      cases scope with
      | page =>
          have own : (mk ident tag text children tail).isSection = true := by
            simpa [isClosed] using closed
          rw [ownedRuns, ownSections, if_neg page, if_pos own, List.flatMap_singleton, innerRuns]
      | document => rw [ownedRuns, metadataIn, if_neg page, if_pos closed, innerRuns]
    rw [left, List.map_nil, List.flatMap_nil, List.count_nil, Nat.zero_add]
  · have inner := childRuns_owned run scope children
    have left : ownedRuns scope (mk ident tag text children tail) = ownedAmong scope children := by
      cases scope with
      | page =>
          have own : ¬ (mk ident tag text children tail).isSection = true := by
            simpa [isClosed] using closed
          rw [ownedRuns, ownSections, if_neg page, if_neg own, ownedAmong]
      | document => rw [ownedRuns, metadataIn, if_neg page, if_neg closed, ownedAmong]
    rw [left, List.map_append, snd, List.count_append, List.count_append, inner]
    omega

theorem childRuns_owned (run : TextRun) (scope : Scope) (children : List Element) :
    (childRuns children).count run =
      ((outsideAmong scope children).map Prod.snd).count run +
        ((openPagesAmong scope children).flatMap pageRuns).count run +
          (ownedAmong scope children).count run := by
  cases children with
  | nil => rw [childRuns, outsideAmong, openPagesAmong, ownedAmong_nil]; rfl
  | cons child rest =>
      have first := innerRuns_owned run scope child
      have others := childRuns_owned run scope rest
      have tails : (child.tailRun.map fun run => (scope, run)).map Prod.snd = child.tailRun := by
        rw [List.map_map]
        exact List.map_id _
      rw [childRuns, outsideAmong, openPagesAmong, ownedAmong_cons, List.map_append, List.map_append,
        tails, List.flatMap_append]
      simp only [List.count_append]
      omega

end

section Searches

theorem size_eq (element : Element) : element.size = 1 + sizes element.children := by
  obtain ⟨ident, tag, text, children, tail⟩ := element
  rw [size]
  rfl

theorem sizes_append (first second : List Element) :
    sizes (first ++ second) = sizes first + sizes second := by
  induction first with
  | nil => rw [List.nil_append, sizes, Nat.zero_add]
  | cons child rest ih => rw [List.cons_append, sizes, sizes, ih, Nat.add_assoc]

theorem ownSectionsOf_append (first second : List Element) :
    ownSectionsOf (first ++ second) = ownSectionsOf first ++ ownSectionsOf second := by
  induction first with
  | nil => rw [List.nil_append, ownSectionsOf, List.nil_append]
  | cons child rest ih =>
      rw [List.cons_append, ownSectionsOf, ownSectionsOf, ih, List.append_assoc]

theorem strayAmong_append (first second : List Element) :
    strayAmong (first ++ second) = (strayAmong first || strayAmong second) := by
  induction first with
  | nil => rw [List.nil_append, strayAmong, Bool.false_or]
  | cons child rest ih => simp only [List.cons_append, strayAmong, ih, Bool.or_assoc]

/-- The search of a page meets its own sections, and all text outside them. -/
theorem searchSections_eq {fuel : ℕ} {stack : List Element} (enough : sizes stack ≤ fuel) :
    searchSections fuel stack = (ownSectionsOf stack, strayAmong stack) := by
  induction fuel generalizing stack with
  | zero =>
      cases stack with
      | nil => rw [searchSections, ownSectionsOf, strayAmong]
      | cons element stack =>
          rw [sizes, size_eq] at enough
          omega
  | succ fuel ih =>
      cases stack with
      | nil => rw [searchSections, ownSectionsOf, strayAmong]; simp
      | cons element stack =>
          rw [sizes, size_eq] at enough
          have rest := @ih stack (by omega)
          have inner := @ih (element.children ++ stack) (by rw [sizes_append]; omega)
          obtain ⟨ident, tag, text, children, tail⟩ := element
          rw [searchSections, ownSectionsOf, strayAmong, ownSections, strayInside]
          split_ifs with page own
          · rw [rest, List.nil_append, Bool.or_false]
          · rw [rest, Bool.or_false]
            rfl
          · rw [inner, ownSectionsOf_append, strayAmong_append]
            simp only [Element.children, Element.tail, Element.text, Bool.or_assoc]

theorem pageSections_eq (page : Element) :
    pageSections page =
      (ownSectionsOf page.children, hasInk page.text || strayAmong page.children) := by
  rw [pageSections, searchSections_eq (by rw [size_eq]; omega)]

/-- What a step of the search for outside text still finds. -/
def stepRuns : OutsideStep → List (Scope × TextRun)
  | .enter element scope => element.outsideIn scope ++ element.tailRun.map (scope, ·)
  | .tail element scope => element.tailRun.map (scope, ·)

def stepSize : OutsideStep → ℕ
  | .enter element _ => 2 * element.size
  | .tail _ _ => 1

theorem outsideAmong_eq (scope : Scope) (children : List Element) :
    outsideAmong scope children = (children.map (entered scope)).flatMap stepRuns := by
  induction children with
  | nil => rw [outsideAmong]; rfl
  | cons child rest ih => rw [outsideAmong, ih, List.map_cons, List.flatMap_cons, entered, stepRuns]

theorem entered_size (scope : Scope) (children : List Element) :
    ((children.map (entered scope)).map stepSize).sum = 2 * sizes children := by
  induction children with
  | nil => rw [sizes]; rfl
  | cons child rest ih =>
      rw [List.map_cons, List.map_cons, List.sum_cons, ih, sizes, entered, stepSize]
      omega

/-- The search for outside text finds what lies outside, element by element. -/
theorem searchOutside_eq {fuel : ℕ} {stack : List OutsideStep}
    (enough : (stack.map stepSize).sum ≤ fuel) :
    searchOutside fuel stack = stack.flatMap stepRuns := by
  induction fuel generalizing stack with
  | zero =>
      cases stack with
      | nil => rfl
      | cons step stack =>
          rw [List.map_cons, List.sum_cons] at enough
          cases step with
          | enter element scope => rw [stepSize, size_eq] at enough; omega
          | tail element scope => rw [stepSize] at enough; omega
  | succ fuel ih =>
      cases stack with
      | nil => rfl
      | cons step stack =>
          rw [List.map_cons, List.sum_cons] at enough
          cases step with
          | tail element scope =>
              rw [stepSize] at enough
              rw [searchOutside, ih (by omega), List.flatMap_cons, stepRuns]
          | enter element scope =>
              rw [stepSize, size_eq] at enough
              have down : ∀ inner : Scope, searchOutside fuel
                  (element.children.map (entered inner) ++ .tail element scope :: stack) =
                    outsideAmong inner element.children ++
                      (element.tailRun.map (scope, ·) ++ stack.flatMap stepRuns) := by
                intro inner
                rw [ih, List.flatMap_append, ← outsideAmong_eq, List.flatMap_cons, stepRuns]
                rw [List.map_append, List.sum_append, entered_size, List.map_cons, List.sum_cons,
                  stepSize]
                omega
              have past : searchOutside fuel (.tail element scope :: stack) =
                  element.tailRun.map (scope, ·) ++ stack.flatMap stepRuns := by
                rw [ih, List.flatMap_cons, stepRuns]
                rw [List.map_cons, List.sum_cons, stepSize]
                omega
              obtain ⟨ident, tag, text, children, tail⟩ := element
              rw [searchOutside, List.flatMap_cons, stepRuns, outsideIn]
              have same : ((scope = .page ∧ (mk ident tag text children tail).isSection = true) ∨
                  (scope = .document ∧ (mk ident tag text children tail).localName =
                    metadataElement)) ↔ (mk ident tag text children tail).isClosed scope = true := by
                simp [isClosed]
              split_ifs with page closed open_ open_
              · rw [down, List.append_assoc, List.append_assoc]
                rfl
              · rw [past, List.nil_append]
              · exact absurd (same.mp closed) open_
              · exact absurd (same.mpr open_) closed
              · rw [down, List.append_assoc, List.append_assoc]
                rfl

end Searches

section Pages

mutual

/-- Every page of an element is open or hidden. -/
theorem pages_perm (scope : Scope) (element : Element) :
    ((iter element).filter (·.isPage)).Perm (element.openPages scope ++ element.hiddenPages scope) := by
  obtain ⟨ident, tag, text, children, tail⟩ := element
  rw [iter, openPages, hiddenPages]
  split_ifs with page closed
  · rw [List.filter_cons_of_pos page, List.cons_append]
    exact (pagesAmong_perm .page children).cons _
  · rw [List.filter_cons_of_neg page, List.nil_append]
  · rw [List.filter_cons_of_neg page]
    exact pagesAmong_perm scope children

theorem pagesAmong_perm (scope : Scope) (children : List Element) :
    ((iters children).filter (·.isPage)).Perm
      (openPagesAmong scope children ++ hiddenPagesAmong scope children) := by
  cases children with
  | nil => rw [iters, openPagesAmong, hiddenPagesAmong]; exact .refl _
  | cons child rest =>
      have first := pages_perm scope child
      have others := pagesAmong_perm scope rest
      rw [iters, openPagesAmong, hiddenPagesAmong, List.filter_append]
      refine (first.append others).trans ?_
      rw [List.append_assoc, List.append_assoc]
      refine List.Perm.append_left _ ?_
      rw [← List.append_assoc, ← List.append_assoc]
      exact List.perm_append_comm.append_right _

end

theorem self_mem_iter (element : Element) : element ∈ element.iter := by
  obtain ⟨ident, tag, text, children, tail⟩ := element
  rw [iter]
  exact .head _

theorem mem_iter {element other : Element} :
    other ∈ element.iter ↔ other = element ∨ other ∈ iters element.children := by
  obtain ⟨ident, tag, text, children, tail⟩ := element
  rw [iter, List.mem_cons]
  rfl

theorem mem_iters {children : List Element} {other : Element} :
    other ∈ iters children ↔ ∃ child ∈ children, other ∈ child.iter := by
  induction children with
  | nil => simp [iters]
  | cons child rest ih => simp [iters, ih]

mutual

theorem iter_trans {element : Element} {outer inner : Element} (first : outer ∈ element.iter)
    (second : inner ∈ outer.iter) : inner ∈ element.iter := by
  obtain ⟨ident, tag, text, children, tail⟩ := element
  rcases mem_iter.mp first with rfl | below
  · exact second
  · exact mem_iter.mpr (.inr (iters_trans below second))

theorem iters_trans {children : List Element} {outer inner : Element} (first : outer ∈ iters children)
    (second : inner ∈ outer.iter) : inner ∈ iters children := by
  cases children with
  | nil => cases first
  | cons child rest =>
      rw [iters, List.mem_append] at first ⊢
      rcases first with here | later
      · exact .inl (iter_trans here second)
      · exact .inr (iters_trans later second)

end

mutual

theorem innerRuns_subset {element inner : Element} (listed : inner ∈ element.iter) :
    inner.innerRuns ⊆ element.innerRuns := by
  obtain ⟨ident, tag, text, children, tail⟩ := element
  rcases mem_iter.mp listed with rfl | below
  · exact List.Subset.refl _
  · rw [innerRuns.eq_def (mk ident tag text children tail)]
    exact List.subset_append_of_subset_right _ (childRuns_subset below)

theorem childRuns_subset {children : List Element} {inner : Element} (listed : inner ∈ iters children) :
    inner.innerRuns ⊆ childRuns children := by
  cases children with
  | nil => cases listed
  | cons child rest =>
      rw [iters, List.mem_append] at listed
      rw [childRuns, List.append_assoc]
      rcases listed with here | later
      · exact List.subset_append_of_subset_left _ (innerRuns_subset here)
      · refine List.subset_append_of_subset_right _ (List.subset_append_of_subset_right _ ?_)
        exact childRuns_subset later

end

mutual

theorem ownSections_iter {element own : Element} (listed : own ∈ element.ownSections) :
    own ∈ element.iter ∧ own.isSection = true := by
  obtain ⟨ident, tag, text, children, tail⟩ := element
  rw [ownSections] at listed
  split_ifs at listed with page section_
  · cases listed
  · obtain rfl := List.mem_singleton.mp listed
    exact ⟨self_mem_iter _, section_⟩
  · obtain ⟨below, section_⟩ := ownSectionsOf_iters listed
    exact ⟨mem_iter.mpr (.inr below), section_⟩

theorem ownSectionsOf_iters {children : List Element} {own : Element}
    (listed : own ∈ ownSectionsOf children) : own ∈ iters children ∧ own.isSection = true := by
  cases children with
  | nil => rw [ownSectionsOf] at listed; cases listed
  | cons child rest =>
      rw [ownSectionsOf, List.mem_append] at listed
      rw [iters, List.mem_append]
      rcases listed with here | later
      · obtain ⟨inside, section_⟩ := ownSections_iter here
        exact ⟨.inl inside, section_⟩
      · obtain ⟨inside, section_⟩ := ownSectionsOf_iters later
        exact ⟨.inr inside, section_⟩

end

/-- A section inside an element lies in a section its page owns, or in one that a page inside the
    element owns. -/
def SectionOwned (owns : List Element) (pages : List Element) (section_ : Element) : Prop :=
  (∃ own ∈ owns, section_.innerRuns ⊆ own.innerRuns) ∨
    ∃ page ∈ pages, page.isPage = true ∧ ∃ own ∈ ownSectionsOf page.children,
      section_.innerRuns ⊆ own.innerRuns

mutual

theorem section_owned {element section_ : Element} (listed : section_ ∈ element.iter)
    (isOne : section_.isSection = true) :
    SectionOwned element.ownSections element.iter section_ := by
  obtain ⟨ident, tag, text, children, tail⟩ := element
  rw [ownSections]
  split_ifs with page own
  · rcases mem_iter.mp listed with rfl | below
    · rw [not_section_of_page page] at isOne
      cases isOne
    · rcases sections_owned below isOne with here | ⟨inner, inside, page', owned⟩
      · exact .inr ⟨_, self_mem_iter _, page, here⟩
      · exact .inr ⟨inner, mem_iter.mpr (.inr inside), page', owned⟩
  · exact .inl ⟨_, .head _, innerRuns_subset listed⟩
  · rcases mem_iter.mp listed with rfl | below
    · exact absurd isOne own
    · rcases sections_owned below isOne with here | ⟨inner, inside, page', owned⟩
      · exact .inl here
      · exact .inr ⟨inner, mem_iter.mpr (.inr inside), page', owned⟩

theorem sections_owned {children : List Element} {section_ : Element}
    (listed : section_ ∈ iters children) (isOne : section_.isSection = true) :
    SectionOwned (ownSectionsOf children) (iters children) section_ := by
  cases children with
  | nil => cases listed
  | cons child rest =>
      rw [iters, List.mem_append] at listed
      rw [ownSectionsOf, iters]
      rcases listed with here | later
      · rcases section_owned here isOne with ⟨own, inside, covers⟩ | ⟨page, inside, owned⟩
        · exact .inl ⟨own, List.mem_append_left _ inside, covers⟩
        · exact .inr ⟨page, List.mem_append_left _ inside, owned⟩
      · rcases sections_owned later isOne with ⟨own, inside, covers⟩ | ⟨page, inside, owned⟩
        · exact .inl ⟨own, List.mem_append_right _ inside, covers⟩
        · exact .inr ⟨page, List.mem_append_right _ inside, owned⟩

end

mutual

/-- A page inside a hidden page is hidden too. -/
theorem hiddenPages_inner {scope : Scope} {element outer inner : Element}
    (hidden : outer ∈ element.hiddenPages scope) (listed : inner ∈ outer.iter)
    (page : inner.isPage = true) : inner ∈ element.hiddenPages scope := by
  obtain ⟨ident, tag, text, children, tail⟩ := element
  rw [hiddenPages] at hidden ⊢
  split_ifs at hidden ⊢ with isPage closed
  · exact hiddenPagesAmong_inner hidden listed page
  · exact List.mem_filter.mpr ⟨iters_trans (List.mem_filter.mp hidden).1 listed, page⟩
  · exact hiddenPagesAmong_inner hidden listed page

theorem hiddenPagesAmong_inner {scope : Scope} {children : List Element} {outer inner : Element}
    (hidden : outer ∈ hiddenPagesAmong scope children) (listed : inner ∈ outer.iter)
    (page : inner.isPage = true) : inner ∈ hiddenPagesAmong scope children := by
  cases children with
  | nil => rw [hiddenPagesAmong] at hidden; cases hidden
  | cons child rest =>
      rw [hiddenPagesAmong, List.mem_append] at hidden ⊢
      rcases hidden with here | later
      · exact .inl (hiddenPages_inner here listed page)
      · exact .inr (hiddenPagesAmong_inner later listed page)

end

end Pages

section Ink

/-- A text that is not blank. -/
def Inky (run : TextRun) : Prop := run.characters.any visible = true

theorem hasInk_iff (ident : ℕ) (isTail : Bool) (text : Option Str) :
    hasInk text = true ↔ ∃ run ∈ runOf ident isTail text, Inky run := by
  cases text with
  | none => simp [hasInk, runOf]
  | some text =>
      cases text with
      | nil => simp [hasInk, runOf]
      | cons point rest => simp [hasInk, runOf, Inky]

/-- Whether text that is not blank lies outside a page's sections. -/
def strayPage (page : Element) : Bool := hasInk page.text || strayAmong page.children

/-- Text that is not blank in the outside texts of a scope. -/
def InkIn (scope : Scope) (runs : List (Scope × TextRun)) : Prop :=
  ∃ run ∈ runs, run.1 = scope ∧ Inky run.2

theorem inkIn_append {scope : Scope} {first second : List (Scope × TextRun)} :
    InkIn scope (first ++ second) ↔ InkIn scope first ∨ InkIn scope second := by
  simp only [InkIn, List.mem_append, or_and_right, exists_or]

theorem inkIn_runOf {scope own : Scope} {ident : ℕ} {isTail : Bool} {text : Option Str} :
    InkIn scope ((runOf ident isTail text).map fun run => (own, run)) ↔
      own = scope ∧ hasInk text = true := by
  rw [hasInk_iff ident isTail]
  constructor
  · rintro ⟨_, listed, same, ink⟩
    obtain ⟨run, held, rfl⟩ := List.mem_map.mp listed
    exact ⟨same, run, held, ink⟩
  · rintro ⟨same, run, held, ink⟩
    exact ⟨_, List.mem_map_of_mem held, same, ink⟩

mutual

/-- The ink outside the sections of pages is that of the open pages, and of the element's page. -/
theorem inkIn_page (scope : Scope) (element : Element) :
    InkIn .page (element.outsideIn scope) ↔ (∃ page ∈ element.openPages scope, strayPage page = true) ∨
      scope = .page ∧ element.strayInside = true := by
  obtain ⟨ident, tag, text, children, tail⟩ := element
  rw [outsideIn, openPages, strayInside]
  split_ifs with page closed section_ section_
  · rw [inkIn_append, inkIn_runOf, inkIn_pages .page children]
    have own : strayPage (mk ident tag text children tail) = (hasInk text || strayAmong children) := rfl
    simp only [List.mem_cons, exists_eq_or_imp, own, Bool.or_eq_true, true_and, and_false, or_false]
    rw [or_comm (a := ∃ page ∈ _, _), ← or_assoc]
  · simp [InkIn]
  · have document : scope ≠ .page := by
      rintro rfl
      simp [isClosed, section_] at closed
    simp [InkIn, document]
  · have document : scope ≠ .page := by
      rintro rfl
      simp [isClosed, section_] at closed
    rw [inkIn_append, inkIn_runOf, inkIn_pages scope children]
    simp [document]
  · rw [inkIn_append, inkIn_runOf, inkIn_pages scope children, Bool.or_eq_true]
    generalize (∃ page ∈ openPagesAmong scope children, strayPage page = true) = found
    tauto

theorem inkIn_pages (scope : Scope) (children : List Element) :
    InkIn .page (outsideAmong scope children) ↔
      (∃ page ∈ openPagesAmong scope children, strayPage page = true) ∨
        scope = .page ∧ strayAmong children = true := by
  cases children with
  | nil => simp [outsideAmong, openPagesAmong, strayAmong, InkIn]
  | cons child rest =>
      rw [outsideAmong, openPagesAmong, strayAmong, inkIn_append, inkIn_append, tailRun, inkIn_runOf,
        inkIn_page scope child, inkIn_pages scope rest]
      simp only [List.mem_append, or_and_right, exists_or, Bool.or_eq_true]
      generalize (∃ page ∈ child.openPages scope, strayPage page = true) = here
      generalize (∃ page ∈ openPagesAmong scope rest, strayPage page = true) = later
      tauto

end

mutual

/-- Inside a page all outside text is the page's. -/
theorem outsideIn_page {element : Element} (run : Scope × TextRun)
    (listed : run ∈ element.outsideIn .page) : run.1 = .page := by
  obtain ⟨ident, tag, text, children, tail⟩ := element
  rw [outsideIn] at listed
  split_ifs at listed with page closed
  · rcases List.mem_append.mp listed with own | below
    · obtain ⟨_, _, rfl⟩ := List.mem_map.mp own
      rfl
    · exact outsideAmong_page run below
  · cases listed
  · rcases List.mem_append.mp listed with own | below
    · obtain ⟨_, _, rfl⟩ := List.mem_map.mp own
      rfl
    · exact outsideAmong_page run below

theorem outsideAmong_page {children : List Element} (run : Scope × TextRun)
    (listed : run ∈ outsideAmong .page children) : run.1 = .page := by
  cases children with
  | nil => rw [outsideAmong] at listed; cases listed
  | cons child rest =>
      rw [outsideAmong, List.mem_append, List.mem_append] at listed
      rcases listed with (inside | tailed) | later
      · exact outsideIn_page run inside
      · obtain ⟨_, _, rfl⟩ := List.mem_map.mp tailed
        rfl
      · exact outsideAmong_page run later

end

end Ink

end Element

theorem outsideRuns_eq (root : Element) : outsideRuns root =
    root.textRun.map (.document, ·) ++ Element.outsideAmong .document root.children := by
  rw [outsideRuns, Element.searchOutside_eq, Element.outsideAmong_eq]
  rw [Element.entered_size, Element.size_eq]
  omega

end Verbatus.Churro
