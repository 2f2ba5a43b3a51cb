import Verbatus.Churro.Flatten

namespace Verbatus.Churro

open Library Library.Checked Python

namespace Account

/-- Operations lead from one account to another. -/
def Reaches (first last : Account) : Prop := ∃ operations, first.performAll operations = .ok last

variable {first between last : Account}

theorem Reaches.refl (account : Account) : account.Reaches account := ⟨[], rfl⟩

theorem Reaches.trans (before : first.Reaches between) (after : between.Reaches last) :
    first.Reaches last := by
  obtain ⟨early, performed⟩ := before
  obtain ⟨late, continued⟩ := after
  refine ⟨early ++ late, ?_⟩
  rw [performAll] at performed continued
  rw [performAll, List.foldlM_append, performed]
  exact continued

theorem Reaches.one {operation : Operation} (performed : first.perform operation = .ok last) :
    first.Reaches last :=
  ⟨[operation], bind_eq_ok.mpr ⟨last, performed, rfl⟩⟩

theorem Reaches.kept (reached : first.Reaches last) (kept : first.Kept) : last.Kept := by
  obtain ⟨operations, performed⟩ := reached
  exact kept.performAll performed

theorem perform_closed {operation : Operation} (performed : first.perform operation = .ok last) :
    ∃ newer, last.closed = newer ++ first.closed := by
  cases operation with
  | add text =>
      cases performed
      exact ⟨[], rfl⟩
  | breakLine count =>
      cases performed
      exact ⟨[], rfl⟩
  | beginMark =>
      cases performed
      exact ⟨[], rfl⟩
  | endMark ident =>
      rw [perform, bind_eq_ok] at performed
      obtain ⟨⟨span, builder⟩, _, same⟩ := performed
      cases same
      exact ⟨[_], rfl⟩

/-- A mark that is closed stays closed. -/
theorem Reaches.closed (reached : first.Reaches last) :
    ∃ newer, last.closed = newer ++ first.closed := by
  obtain ⟨operations, performed⟩ := reached
  induction operations generalizing first with
  | nil =>
      cases performed
      exact ⟨[], rfl⟩
  | cons operation operations ih =>
      rw [performAll, List.foldlM_cons, bind_eq_ok] at performed
      obtain ⟨between, one, rest⟩ := performed
      obtain ⟨newer, grown⟩ := ih rest
      obtain ⟨newest, begun⟩ := perform_closed one
      exact ⟨newer ++ newest, by rw [grown, begun, List.append_assoc]⟩

theorem reaches_breakLine (account : Account) (count : ℕ) :
    account.Reaches { account with builder := account.builder.breakLine count } :=
  .one (show account.perform (.breakLine count) = _ from rfl)

theorem reaches_add (account : Account) (text : Str) :
    account.Reaches { account with
      builder := account.builder.add text, added := account.added ++ text.filter visible } :=
  .one (show account.perform (.add text) = _ from rfl)

theorem reaches_beginMark (account : Account) :
    account.Reaches { account with
      builder := account.builder.beginMark.2
      opened := account.added.length :: account.opened } :=
  .one (show account.perform .beginMark = _ from rfl)

/-- The mark a walk closes is closed in its account. -/
theorem reaches_endMark (account : Account) {ident start stop : ℕ} {builder : TextBuilder}
    (ended : endMark account.builder ident = .ok ((start, stop), builder)) :
    ∃ after, account.Reaches after ∧ after.builder = builder ∧
      ∃ mark, mark.ident = ident ∧ mark.start = start ∧ mark.stop = stop ∧
        after.closed = mark :: account.closed := by
  have done : account.builder.endMark ident = .ok ((start, stop), builder) := by
    rw [Churro.endMark] at ended
    cases known : account.builder.endMark ident with
    | error refusal =>
        rw [known] at ended
        cases ended
    | ok result =>
        rw [known] at ended
        cases ended
        rfl
  have performed : account.perform (.endMark ident) = .ok { account with
      builder
      opened := account.opened.tail
      closed := ⟨ident, account.opened.headD 0, account.added.length, start, stop⟩ ::
        account.closed } := by
    rw [perform, done]
    rfl
  exact ⟨_, .one performed, rfl, _, rfl, rfl, rfl, rfl⟩

end Account

/-- An account of what a walk has done: its builder, and a closed mark for every span. -/
structure Follows (account : Account) (walked : Walked) : Prop where
  builder : account.builder = walked.builder
  spans : ∀ span ∈ walked.spans, span.kind ∈ markedSpanKinds ∧ ∃ mark ∈ account.closed,
    mark.start = span.start ∧ mark.stop = span.stop

section Walks

variable {account : Account} {walked after : Walked}

/-- What is asked of the builder alone is done to the account. -/
theorem Follows.next (follows : Follows account walked) {last : Account} {builder : TextBuilder}
    (reached : account.Reaches last) (same : last.builder = builder) :
    Follows last { walked with builder } := by
  refine ⟨same, fun span listed => ?_⟩
  obtain ⟨kind, mark, closed, bounds⟩ := follows.spans span listed
  obtain ⟨newer, grown⟩ := reached.closed
  exact ⟨kind, mark, grown ▸ List.mem_append_right _ closed, bounds⟩

theorem Follows.breakIf (follows : Follows account walked) (isLine : Bool) :
    ∃ last, account.Reaches last ∧
      Follows last { walked with builder := breakIf isLine walked.builder } := by
  cases isLine with
  | false => exact ⟨account, .refl account, follows⟩
  | true =>
      have reached := account.reaches_breakLine 1
      exact ⟨_, reached, follows.next reached (by rw [follows.builder]; rfl)⟩

theorem Follows.addText (follows : Follows account walked) (text : Option Str) (insideLine : Bool) :
    ∃ last, account.Reaches last ∧
      Follows last { walked with builder := addText walked.builder text insideLine } := by
  rw [Churro.addText.eq_def]
  split
  · exact ⟨account, .refl account, follows⟩
  · exact ⟨account, .refl account, follows⟩
  · rename_i text _
    split_ifs with inside blank
    · have reached := account.reaches_add text
      exact ⟨_, reached, follows.next reached (by rw [← follows.builder])⟩
    · have broken := account.reaches_breakLine 1
      have added := Account.reaches_add
        { account with builder := account.builder.breakLine 1 } text
      have reached := (broken.trans added).trans (Account.reaches_breakLine _ 1)
      exact ⟨_, reached, follows.next reached (by rw [← follows.builder])⟩
    · exact ⟨account, .refl account, follows⟩

theorem Follows.beginSpan (follows : Follows account walked) (child : Element) :
    ∃ last, account.Reaches last ∧
      Follows last { walked with builder := (beginSpan child walked.builder).2 } := by
  rw [Churro.beginSpan]
  split_ifs with marked
  · have reached := account.reaches_beginMark
    exact ⟨_, reached, follows.next reached (by rw [follows.builder])⟩
  · exact ⟨account, .refl account, follows⟩

theorem beginSpan_kind {child : Element} {builder : TextBuilder} {ident : ℕ}
    (begun : (beginSpan child builder).1 = some ident) : child.localName ∈ markedSpanKinds := by
  rw [beginSpan] at begun
  split_ifs at begun with marked
  exact marked

theorem Follows.endSpan (follows : Follows account walked) {child : Element} {mark : Option ℕ}
    (marked : ∀ ident, mark = some ident → child.localName ∈ markedSpanKinds)
    (ended : endSpan child mark walked = .ok after) :
    ∃ last, account.Reaches last ∧ Follows last after := by
  cases mark with
  | none =>
      cases ended
      exact ⟨account, .refl account, follows⟩
  | some ident =>
      rw [Churro.endSpan, bind_eq_ok] at ended
      obtain ⟨⟨⟨start, stop⟩, builder⟩, closed, same⟩ := ended
      cases same
      rw [← follows.builder] at closed
      obtain ⟨last, reached, built, mark, _, starts, stops, grown⟩ := account.reaches_endMark closed
      refine ⟨last, reached, built, fun span listed => ?_⟩
      rcases List.mem_append.mp listed with old | new
      · exact (follows.next reached built).spans span old
      · obtain rfl := List.mem_singleton.mp new
        exact ⟨marked ident rfl, mark, grown ▸ .head _, starts, stops⟩

mutual

/-- What a walk does to its builder are operations of the builder. -/
theorem walk_follows (element : Element) {insideLine : Bool} {depth lines : ℕ} {account : Account}
    {walked after : Walked} (follows : Follows account walked)
    (returned : walk element insideLine depth walked = .ok (lines, after)) :
    ∃ last, account.Reaches last ∧ Follows last after := by
  obtain ⟨ident, tag, text, children, tail⟩ := element
  rw [walk] at returned
  split_ifs at returned with deep
  obtain ⟨between, added, here⟩ := follows.addText text insideLine
  obtain ⟨last, walking, there⟩ := walkChildren_follows children here returned
  exact ⟨last, added.trans walking, there⟩

theorem walkChildren_follows (children : List Element) {insideLine : Bool} {depth lines : ℕ}
    {account : Account} {walked after : Walked} (follows : Follows account walked)
    (returned : walkChildren children insideLine depth walked = .ok (lines, after)) :
    ∃ last, account.Reaches last ∧ Follows last after := by
  cases children with
  | nil =>
      rw [walkChildren] at returned
      cases returned
      exact ⟨account, .refl account, follows⟩
  | cons child rest =>
      rw [walkChildren] at returned
      obtain ⟨⟨count, inner⟩, down, returned⟩ := bind_eq_ok.mp returned
      obtain ⟨ended, closing, returned⟩ := bind_eq_ok.mp returned
      obtain ⟨⟨more, final⟩, across, same⟩ := bind_eq_ok.mp returned
      cases same
      obtain ⟨_, begun, opened⟩ := follows.beginSpan child
      obtain ⟨_, first, broken⟩ := opened.breakIf _
      obtain ⟨_, walking, inside⟩ := walk_follows child broken down
      obtain ⟨_, second, outside⟩ := inside.breakIf _
      obtain ⟨_, closed, done⟩ := outside.endSpan (fun _ => beginSpan_kind) closing
      obtain ⟨_, tailed, tail⟩ := done.addText child.tail insideLine
      obtain ⟨last, others, there⟩ := walkChildren_follows rest tail across
      exact ⟨last, ((((begun.trans first).trans walking).trans second).trans closed).trans
        (tailed.trans others), there⟩

end

end Walks

/-- What every step of a loop keeps holds where the loop ends. -/
theorem foldlM_keep {ε α β : Type} {step : β → α → Except ε β} (keep : β → Prop)
    {elements : List α}
    (kept : ∀ value, ∀ element ∈ elements, ∀ next, keep value → step value element = .ok next →
      keep next)
    {value result : β} (start : keep value) (returned : elements.foldlM step value = .ok result) :
    keep result := by
  induction elements generalizing value with
  | nil =>
      cases returned
      exact start
  | cons element elements ih =>
      rw [List.foldlM_cons, bind_eq_ok] at returned
      obtain ⟨next, made, rest⟩ := returned
      refine ih (fun value other later => kept value other (.tail _ later)) ?_ rest
      exact kept value element (.head _) next start made

/-- A finding names no page before the first. -/
def Finding.Places : Finding → Prop
  | .pageTextOutsideSections pageOrdinal => 1 ≤ pageOrdinal
  | _ => True

/-- An account of a flattening: a closed mark for every section too, and the sections in order. -/
structure Recounts (account : Account) (state : Flattening) : Prop where
  kept : account.Kept
  follows : Follows account state.walked
  sections : ∀ span ∈ state.sections, ∃ mark ∈ account.closed,
    mark.start = span.start ∧ mark.stop = span.stop
  ordered : state.sections.Pairwise fun earlier later => earlier.stop ≤ later.start
  places : ∀ span ∈ state.sections, 1 ≤ span.pageOrdinal ∧ span.name ∈ pageSectionNames
  findings : ∀ finding ∈ state.findings, finding.Places

section Flattenings

/-- An account that operations of the builder lead to. -/
def Recounted (state : Flattening) : Prop :=
  ∃ account, Account.start.Reaches account ∧ Recounts account state

variable {state after : Flattening}

theorem flattenSection_recounted {pageOrdinal : ℕ} {name : Str} {element : Element}
    (first : 1 ≤ pageOrdinal) (section_ : name ∈ pageSectionNames) (recounted : Recounted state)
    (returned : flattenSection pageOrdinal name state element = .ok after) : Recounted after := by
  obtain ⟨account, before, kept, follows, sections, ordered, places, findings⟩ := recounted
  rw [flattenSection] at returned
  obtain ⟨⟨lines, inner⟩, walking, returned⟩ := bind_eq_ok.mp returned
  obtain ⟨⟨⟨start, stop⟩, builder⟩, closing, same⟩ := bind_eq_ok.mp returned
  cases same
  have broken := account.reaches_breakLine 1
  have begun := Account.reaches_beginMark
    { account with builder := account.builder.breakLine 1 }
  have opened := follows.next (broken.trans begun)
    (show _ = (state.walked.builder.breakLine 1).beginMark.2 by rw [← follows.builder])
  obtain ⟨inside, walked, there⟩ := walk_follows element opened walking
  rw [← there.builder] at closing
  obtain ⟨last, ended, built, mark, which, starts, stops, grown⟩ := inside.reaches_endMark closing
  have path := ((broken.trans begun).trans walked).trans ended
  obtain ⟨newer, older⟩ := walked.closed
  have final := path.kept kept
  have nested := final.nested
  rw [grown, older, List.pairwise_cons] at nested
  refine ⟨last, before.trans path, final, there.next ended built, fun span listed => ?_, ?_,
    fun span listed => ?_, findings⟩
  · rcases List.mem_append.mp listed with old | new
    · obtain ⟨held, closed, bounds⟩ := sections span old
      exact ⟨held, grown ▸ .tail _ (older ▸ List.mem_append_right _ closed), bounds⟩
    · obtain rfl := List.mem_singleton.mp new
      exact ⟨mark, grown ▸ .head _, starts, stops⟩
  · refine List.pairwise_append.mpr ⟨ordered, List.pairwise_singleton _ _, fun span listed new only => ?_⟩
    obtain rfl := List.mem_singleton.mp only
    obtain ⟨held, closed, _, heldStop⟩ := sections span listed
    have fresh : held.ident < mark.ident := by
      rw [which, ← follows.builder]
      exact kept.closedFresh held closed
    have behind := (nested.1 held (List.mem_append_right _ closed)).2 fresh.le
    rw [heldStop, starts] at behind
    exact behind.2
  · rcases List.mem_append.mp listed with old | new
    · exact places span old
    · obtain rfl := List.mem_singleton.mp new
      exact ⟨first, section_⟩

theorem flattenPage_recounted {page : Element × ℕ} (first : 1 ≤ page.2)
    (recounted : Recounted state) (returned : flattenPage state page = .ok after) :
    Recounted after := by
  rw [flattenPage] at returned
  refine foldlM_keep Recounted (fun between name listed next here made => ?_) ?_ returned
  · refine foldlM_keep Recounted (fun inner element _ next there made => ?_) here made
    exact flattenSection_recounted first listed there made
  · obtain ⟨account, before, kept, follows, sections, ordered, places, findings⟩ := recounted
    have found : ∀ finding ∈ state.findings ++
        (if (pageSections page.1).2 then [Finding.pageTextOutsideSections page.2] else []),
        finding.Places := by
      intro finding listed
      rcases List.mem_append.mp listed with old | new
      · exact findings finding old
      · split_ifs at new with outside
        · obtain rfl := List.mem_singleton.mp new
          exact first
        · cases new
    by_cases later : page.2 > 1
    · have broken := account.reaches_breakLine 2
      rw [if_pos later]
      exact ⟨_, before.trans broken, broken.kept kept,
        follows.next broken (by rw [← follows.builder]), sections, ordered, places, found⟩
    · rw [if_neg later]
      exact ⟨account, before, kept, follows, sections, ordered, places, found⟩

/-- An account of a document's view: its text, its spans as marks closed, its sections in order. -/
structure Views (account : Account) (flattened : Flattened) : Prop where
  reached : Account.start.Reaches account
  kept : account.Kept
  text : account.text = flattened.text
  markedSpans : ∀ span ∈ flattened.markedSpans, span.kind ∈ markedSpanKinds ∧
    ∃ mark ∈ account.closed, mark.start = span.start ∧ mark.stop = span.stop
  sections : ∀ span ∈ flattened.sections, ∃ mark ∈ account.closed,
    mark.start = span.start ∧ mark.stop = span.stop
  ordered : flattened.sections.Pairwise fun earlier later => earlier.stop ≤ later.start
  places : ∀ span ∈ flattened.sections, 1 ≤ span.pageOrdinal ∧ span.name ∈ pageSectionNames
  findings : ∀ finding ∈ flattened.findings, finding.Places

/-- The text of a document is what operations of the builder write, and each of its spans is a
    mark they close. -/
theorem flattenDocument_views {root : Element} {flattened : Flattened}
    (returned : flattenDocument root = .ok flattened) : ∃ account, Views account flattened := by
  rw [flattenDocument] at returned
  obtain ⟨state, walked, same⟩ := bind_eq_ok.mp returned
  cases same
  have start : Recounted ⟨⟨.empty, []⟩, [], []⟩ :=
    ⟨.start, .refl _, Account.start_kept, ⟨rfl, by simp⟩, by simp, .nil, by simp, by simp⟩
  obtain ⟨account, reached, kept, follows, sections, ordered, places, findings⟩ :=
    foldlM_keep Recounted (fun between page listed next here made =>
      flattenPage_recounted (List.mem_zipIdx listed).1 here made) start walked
  refine ⟨account, reached, kept, congrArg TextBuilder.written follows.builder, ?_, sections, ordered,
    places, fun finding listed => ?_⟩
  · intro span listed
    exact follows.spans span ((mem_sortBy _).mp listed)
  · rcases List.mem_append.mp listed with old | new
    · exact findings finding old
    · split_ifs at new with outside
      · obtain rfl := List.mem_singleton.mp new
        exact trivial
      · cases new

end Flattenings

end Verbatus.Churro
