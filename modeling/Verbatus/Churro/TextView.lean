import Verbatus.Churro.TextBuilder
import Verbatus.Python.StrText

namespace Verbatus.Churro

open Library Python

/-- What a walk asks of its builder. -/
inductive Operation where
  | add (text : Str)
  | breakLine (count : ℕ)
  | beginMark
  | endMark (ident : ℕ)
  deriving DecidableEq, Repr

/-- A closed mark with its span, and how many characters that are not ASCII whitespace had been
    added when it was begun and when it was closed. -/
structure ClosedMark where
  ident : ℕ
  openedAt : ℕ
  closedAt : ℕ
  start : ℕ
  stop : ℕ
  deriving DecidableEq, Repr

/-- A builder beside the account of what was asked of it: the characters added, the marks still
    open and the marks closed, newest first. -/
structure Account where
  builder : TextBuilder
  added : Str
  opened : List ℕ
  closed : List ClosedMark
  deriving DecidableEq, Repr

namespace Account

variable (account : Account)

def start : Account := ⟨.empty, [], [], []⟩

def text : Str := account.builder.written

def perform : Operation → Except Refusal Account
  | .add text =>
    .ok { account with
      builder := account.builder.add text
      added := account.added ++ text.filter visible }
  | .breakLine count => .ok { account with builder := account.builder.breakLine count }
  | .beginMark =>
    .ok { account with
      builder := account.builder.beginMark.2
      opened := account.added.length :: account.opened }
  | .endMark ident => do
    let (span, builder) ← account.builder.endMark ident
    pure { account with
      builder
      opened := account.opened.tail
      closed :=
        ⟨ident, account.opened.headD 0, account.added.length, span.1, span.2⟩ :: account.closed }

def performAll (operations : List Operation) : Except Refusal Account :=
  operations.foldlM perform account

end Account

/-- The separators of a text: no space beside another separator, and none at an end. -/
structure Spaced (text : Str) : Prop where
  leading : ∀ point ∈ text.head?, visible point = true
  trailing : ∀ point ∈ text.getLast?, visible point = true
  apart : text.IsChain fun first second =>
    ¬ (first = space ∧ asciiWhitespace second) ∧ ¬ (asciiWhitespace first ∧ second = space)
  separators : ∀ point ∈ text, asciiWhitespace point = true → point = space ∨ point = newline

section Spaced

variable {text : Str}

/-- What a flush writes between two characters. -/
inductive Separator : Str → Prop where
  | none : Separator []
  | space : Separator [space]
  | breaks (count : ℕ) : Separator (List.replicate count newline)

theorem Separator.blank {separator : Str} (separates : Separator separator) :
    ∀ point ∈ separator, asciiWhitespace point = true := by
  cases separates with
  | none => simp
  | space =>
      intro point listed
      rw [List.mem_singleton.mp listed]
      decide
  | breaks count =>
      intro point listed
      rw [List.eq_of_mem_replicate listed]
      decide

theorem Separator.listed {separator : Str} (separates : Separator separator) :
    ∀ point ∈ separator, point = Churro.space ∨ point = newline := by
  cases separates with
  | none => simp
  | space => exact fun point listed => .inl (List.mem_singleton.mp listed)
  | breaks count => exact fun point listed => .inr (List.eq_of_mem_replicate listed)

theorem space_hidden {point : CodePoint} (shown : visible point = true) : point ≠ space := by
  rintro rfl
  revert shown
  decide

theorem not_asciiWhitespace {point : CodePoint} (shown : visible point = true) :
    ¬ asciiWhitespace point = true := by
  rw [visible_eq_true.mp shown]
  exact Bool.false_ne_true

theorem Separator.chain {separator : Str} (separates : Separator separator) (last : CodePoint)
    (shown : visible last = true) (point : CodePoint) (begins : visible point = true) :
    (last :: (separator ++ [point])).IsChain fun first second =>
      ¬ (first = Churro.space ∧ asciiWhitespace second) ∧
        ¬ (asciiWhitespace first ∧ second = Churro.space) := by
  have left := space_hidden shown
  have right := space_hidden begins
  have leftShown := not_asciiWhitespace shown
  have rightShown := not_asciiWhitespace begins
  cases separates with
  | none => simp [left, leftShown]
  | space => simp [left, leftShown, right, rightShown]
  | breaks count =>
      induction count generalizing last with
      | zero => simp [left, leftShown]
      | succ count ih =>
          have newlines : newline ≠ Churro.space := by decide
          have tail : ∀ count : ℕ, (newline :: (List.replicate count newline ++ [point])).IsChain
              fun first second => ¬ (first = Churro.space ∧ asciiWhitespace second) ∧
                ¬ (asciiWhitespace first ∧ second = Churro.space) := by
            intro count
            induction count with
            | zero => simp [newlines, right]
            | succ count ih =>
                rw [List.replicate_succ, List.cons_append, List.isChain_cons_cons]
                exact ⟨by simp [newlines], ih⟩
          rw [List.replicate_succ, List.cons_append, List.isChain_cons_cons]
          exact ⟨by simp [left, leftShown], tail count⟩

/-- A character after a separator keeps a text spaced. -/
theorem Spaced.concat (spaced : Spaced text) {separator : Str} (separates : Separator separator)
    (begins : text = [] → separator = []) {point : CodePoint} (shown : visible point = true) :
    Spaced (text ++ (separator ++ [point])) where
  leading := by
    cases text with
    | nil =>
        rw [begins rfl]
        intro first listed
        cases listed
        exact shown
    | cons head text => exact spaced.leading
  trailing := by
    rw [List.getLast?_append_of_ne_nil _ (by simp), List.getLast?_concat]
    intro last listed
    cases listed
    exact shown
  apart := by
    cases known : text.getLast? with
    | none =>
        rw [List.getLast?_eq_none_iff] at known
        rw [begins known, known]
        simp
    | some last =>
        have chain := separates.chain last (spaced.trailing last known) point shown
        rw [List.isChain_append]
        refine ⟨spaced.apart, chain.tail, ?_⟩
        intro before listed after first
        rw [known] at listed
        cases listed
        cases grown : separator ++ [point] with
        | nil => simp at grown
        | cons head rest =>
            rw [grown] at first chain
            cases first
            exact (List.isChain_cons_cons.mp chain).1
  separators := by
    intro other listed blank
    rw [List.mem_append, List.mem_append, List.mem_singleton] at listed
    rcases listed with old | inserted | rfl
    · exact spaced.separators other old blank
    · exact separates.listed other inserted
    · exact absurd blank (not_asciiWhitespace shown)

end Spaced

section Written

variable {builder : TextBuilder} {point : CodePoint}

/-- A character is written after at most one separator, and opens every mark that waits for one. -/
theorem addPoint_written (shown : visible point = true) :
    ∃ separator, Separator separator ∧ (builder.written = [] → separator = []) ∧
      (builder.addPoint point).written = builder.written ++ (separator ++ [point]) ∧
      (builder.addPoint point).marks =
        builder.marks.map (TextBuilder.openMark (builder.length + separator.length)) ∧
      (builder.addPoint point).begun = builder.begun := by
  rw [TextBuilder.addPoint_visible (visible_eq_true.mp shown), TextBuilder.addRun,
    TextBuilder.openMarks, TextBuilder.flush]
  split_ifs with empty breaks spaces
  · exact ⟨[], .none, fun _ => rfl, rfl, rfl, rfl⟩
  · refine ⟨_, .breaks builder.pendingBreak, fun none => ?_, ?_, ?_, rfl⟩
    · exact absurd (List.length_eq_zero_iff.mpr none) empty
    · exact List.append_assoc _ _ _
    · rw [← TextBuilder.length_emit]
      rfl
  · refine ⟨_, .space, fun none => ?_, ?_, ?_, rfl⟩
    · exact absurd (List.length_eq_zero_iff.mpr none) empty
    · exact List.append_assoc _ _ _
    · rw [← TextBuilder.length_emit]
      rfl
  · exact ⟨[], .none, fun _ => rfl, rfl, rfl, rfl⟩

theorem addPoint_blank (blank : asciiWhitespace point = true) :
    (builder.addPoint point).written = builder.written ∧
      (builder.addPoint point).marks = builder.marks ∧
      (builder.addPoint point).begun = builder.begun := by
  rw [TextBuilder.addPoint, if_pos blank]
  split_ifs <;> exact ⟨rfl, rfl, rfl⟩

end Written

section Places

variable {text more : Str} {place : ℕ}

/-- How many characters that are not ASCII whitespace stand before a place of a text. -/
def shownBefore (text : Str) (place : ℕ) : ℕ := ((text.take place).filter visible).length

theorem shownBefore_append (inside : place ≤ text.length) :
    shownBefore (text ++ more) place = shownBefore text place := by
  rw [shownBefore, List.take_append_of_le_length inside, shownBefore]

theorem shownBefore_length : shownBefore text text.length = (text.filter visible).length := by
  rw [shownBefore, List.take_length]

/-- A character that is not ASCII whitespace stands at a place. -/
def ShownAt (text : Str) (place : ℕ) : Prop := ∃ point, text[place]? = some point ∧ visible point = true

theorem ShownAt.append (shown : ShownAt text place) : ShownAt (text ++ more) place := by
  obtain ⟨point, found, seen⟩ := shown
  exact ⟨point, by rw [List.getElem?_append_left (List.getElem?_eq_some_iff.mp found).1, found], seen⟩

theorem shownAt_pred (nonempty : text ≠ [])
    (ends : ∀ point ∈ text.getLast?, visible point = true) : ShownAt text (text.length - 1) := by
  refine ⟨text.getLast nonempty, ?_, ends _ (List.getLast?_eq_some_getLast nonempty)⟩
  rw [← List.getLast?_eq_getElem?, List.getLast?_eq_some_getLast nonempty]

/-- A span of a text: the characters before each end of it counted, and both its ends shown. -/
structure ClosedMark.Placed (text : Str) (mark : ClosedMark) : Prop where
  ordered : mark.start ≤ mark.stop
  within : mark.stop ≤ text.length
  before : shownBefore text mark.start = mark.openedAt
  through : shownBefore text mark.stop = mark.closedAt
  begins : mark.start < mark.stop → ShownAt text mark.start
  ends : mark.start < mark.stop → ShownAt text (mark.stop - 1)

theorem ClosedMark.Placed.append {mark : ClosedMark} (placed : mark.Placed text) :
    mark.Placed (text ++ more) where
  ordered := placed.ordered
  within := by
    have within := placed.within
    rw [List.length_append]
    omega
  before := by
    rw [shownBefore_append (placed.ordered.trans placed.within), placed.before]
  through := by rw [shownBefore_append placed.within, placed.through]
  begins := fun some => (placed.begins some).append
  ends := fun some => (placed.ends some).append

/-- An open mark waits for its first character, or begins at it. -/
structure Mark.Opened (text : Str) (added : ℕ) (mark : Mark) (count : ℕ) : Prop where
  waiting : mark.start = none → added = count
  begun : ∀ place, mark.start = some place →
    place < text.length ∧ shownBefore text place = count ∧ ShownAt text place

end Places

namespace Account

/-- What holds of a builder and of its account after any operations. -/
structure Kept (account : Account) : Prop where
  spaced : Spaced account.text
  added : account.text.filter visible = account.added
  opened : List.Forall₂ (Mark.Opened account.text account.added.length)
    account.builder.marks account.opened
  placed : ∀ mark ∈ account.closed, mark.Placed account.text
  idents : account.builder.marks.Pairwise fun inner outer => outer.ident < inner.ident
  openFresh : ∀ mark ∈ account.builder.marks, mark.ident < account.builder.begun
  closedFresh : ∀ mark ∈ account.closed, mark.ident < account.builder.begun
  started : account.builder.marks.Pairwise fun inner outer =>
    ∀ place, inner.start = some place → ∃ first, outer.start = some first ∧ first ≤ place
  inside : ∀ mark ∈ account.closed, ∀ outer ∈ account.builder.marks, outer.ident < mark.ident →
    mark.start = mark.stop ∨ ∃ first, outer.start = some first ∧ first ≤ mark.start
  behind : ∀ mark ∈ account.closed, ∀ outer ∈ account.builder.marks, mark.ident ≤ outer.ident →
    mark.ident < outer.ident ∧ ∀ first, outer.start = some first → mark.stop ≤ first
  nested : account.closed.Pairwise fun later earlier =>
    (later.ident < earlier.ident →
      earlier.start = earlier.stop ∨ later.start ≤ earlier.start ∧ earlier.stop ≤ later.stop) ∧
    (earlier.ident ≤ later.ident → earlier.ident < later.ident ∧ earlier.stop ≤ later.start)

theorem start_kept : start.Kept where
  spaced := ⟨by simp [start, text, TextBuilder.empty], by simp [start, text, TextBuilder.empty],
    .nil, by simp [start, text, TextBuilder.empty]⟩
  added := rfl
  opened := .nil
  placed := by simp [start]
  idents := .nil
  openFresh := by simp [start, TextBuilder.empty]
  closedFresh := by simp [start]
  started := .nil
  inside := by simp [start]
  behind := by simp [start]
  nested := .nil

variable {account after : Account}

/-- An operation that writes nothing and touches no mark keeps the account. -/
theorem Kept.of_same (kept : account.Kept) {builder : TextBuilder}
    (written : builder.written = account.builder.written)
    (marks : builder.marks = account.builder.marks) (begun : builder.begun = account.builder.begun) :
    ({ account with builder } : Account).Kept where
  spaced := by
    rw [text, written]
    exact kept.spaced
  added := by
    rw [text, written]
    exact kept.added
  opened := by
    rw [text, written]
    dsimp only
    rw [marks]
    exact kept.opened
  placed := by
    rw [text, written]
    exact kept.placed
  idents := by
    dsimp only
    rw [marks]
    exact kept.idents
  openFresh := by
    dsimp only
    rw [marks, begun]
    exact kept.openFresh
  closedFresh := by
    dsimp only
    rw [begun]
    exact kept.closedFresh
  started := by
    dsimp only
    rw [marks]
    exact kept.started
  inside := by
    dsimp only
    rw [marks]
    exact kept.inside
  behind := by
    dsimp only
    rw [marks]
    exact kept.behind
  nested := kept.nested

theorem openMark_start (length : ℕ) (mark : Mark) :
    (TextBuilder.openMark length mark).start = some (mark.start.getD length) := rfl

/-- A character that is written is added, and every open mark begins at it or before it. -/
theorem Kept.addPoint (kept : account.Kept) {point : CodePoint} (shown : visible point = true) :
    ({ account with
      builder := account.builder.addPoint point, added := account.added ++ [point] } :
        Account).Kept := by
  obtain ⟨separator, separates, first, written, marks, begun⟩ := addPoint_written shown
  have none : separator.filter visible = [] := by
    rw [List.filter_eq_nil_iff]
    intro other listed seen
    exact not_asciiWhitespace seen (separates.blank other listed)
  have whole : (account.text ++ (separator ++ [point])).filter visible = account.added ++ [point] := by
    rw [List.filter_append, List.filter_append, none, kept.added, List.nil_append,
      List.filter_cons_of_pos shown, List.filter_nil]
  have place : account.builder.length + separator.length <
      (account.text ++ (separator ++ [point])).length := by
    rw [List.length_append, List.length_append, List.length_singleton, TextBuilder.length]
    change _ < account.builder.written.length + _
    omega
  have here : ShownAt (account.text ++ (separator ++ [point]))
      (account.builder.length + separator.length) := by
    refine ⟨point, ?_, shown⟩
    rw [← List.append_assoc, List.getElem?_append_right, List.length_append]
    · change [point][account.text.length + _ - _]? = _
      rw [Nat.sub_self]
      rfl
    · rw [List.length_append]
      exact le_refl _
  have counted : shownBefore (account.text ++ (separator ++ [point]))
      (account.builder.length + separator.length) = account.added.length := by
    have taken : (account.text ++ (separator ++ [point])).take
        (account.builder.length + separator.length) = account.text ++ separator := by
      rw [← List.append_assoc]
      exact List.take_left' List.length_append
    rw [shownBefore, taken, List.filter_append, none, List.append_nil, kept.added]
  refine ⟨?_, ?_, ?_, ?_, ?_, ?_, ?_, ?_, ?_, ?_, kept.nested⟩
  · change Spaced (account.builder.addPoint point).written
    rw [written]
    exact kept.spaced.concat separates first shown
  · change (account.builder.addPoint point).written.filter visible = _
    rw [written]
    exact whole
  · change List.Forall₂ (Mark.Opened (account.builder.addPoint point).written _)
      (account.builder.addPoint point).marks account.opened
    rw [written, marks, List.forall₂_map_left_iff]
    refine kept.opened.imp fun mark count opened => ⟨nofun, fun start known => ?_⟩
    rw [openMark_start, Option.some.injEq] at known
    subst known
    cases waiting : mark.start with
    | none =>
        rw [Option.getD_none, ← opened.waiting waiting]
        exact ⟨place, counted, here⟩
    | some start =>
        obtain ⟨inside, before, seen⟩ := opened.begun start waiting
        rw [Option.getD_some]
        refine ⟨?_, (shownBefore_append inside.le).trans before, seen.append⟩
        rw [List.length_append]
        exact Nat.lt_add_right _ inside
  · intro mark listed
    change mark.Placed (account.builder.addPoint point).written
    rw [written]
    exact (kept.placed mark listed).append
  · change (account.builder.addPoint point).marks.Pairwise _
    rw [marks, List.pairwise_map]
    exact kept.idents
  · change ∀ mark ∈ (account.builder.addPoint point).marks, _ < (account.builder.addPoint point).begun
    rw [marks, begun, List.forall_mem_map]
    exact kept.openFresh
  · change ∀ mark ∈ account.closed, _ < (account.builder.addPoint point).begun
    rw [begun]
    exact kept.closedFresh
  · change (account.builder.addPoint point).marks.Pairwise _
    rw [marks, List.pairwise_map]
    refine List.Pairwise.imp_of_mem (fun {inner outer} innerListed outerListed started => ?_)
      kept.started
    intro start known
    rw [openMark_start, Option.some.injEq] at known
    refine ⟨_, openMark_start _ _, ?_⟩
    cases waiting : inner.start with
    | some start =>
        obtain ⟨first, held, early⟩ := started start waiting
        rw [waiting, Option.getD_some] at known
        rw [held, Option.getD_some, ← known]
        exact early
    | none =>
        rw [waiting, Option.getD_none] at known
        cases held : outer.start with
        | none => exact known.le
        | some first =>
            obtain ⟨count, _, opened⟩ := Checked.exists_of_mem_forall₂ kept.opened.flip outerListed
            have early := (opened.begun first held).1
            rw [Option.getD_some, ← known, TextBuilder.length]
            change _ < account.builder.written.length at early
            omega
  · intro mark listed outer open_ earlier
    change outer ∈ (account.builder.addPoint point).marks at open_
    rw [marks, List.mem_map] at open_
    obtain ⟨held, inside, rfl⟩ := open_
    rcases kept.inside mark listed held inside earlier with empty | ⟨start, known, early⟩
    · exact .inl empty
    · exact .inr ⟨start, by rw [openMark_start, known, Option.getD_some], early⟩
  · intro mark listed outer open_ later
    change outer ∈ (account.builder.addPoint point).marks at open_
    rw [marks, List.mem_map] at open_
    obtain ⟨held, inside, rfl⟩ := open_
    obtain ⟨strictly, starts⟩ := kept.behind mark listed held inside later
    refine ⟨strictly, fun start known => ?_⟩
    rw [openMark_start, Option.some.injEq] at known
    cases waiting : held.start with
    | some start =>
        rw [waiting, Option.getD_some] at known
        rw [← known]
        exact starts start waiting
    | none =>
        have within : mark.stop ≤ account.builder.written.length := (kept.placed mark listed).within
        rw [waiting, Option.getD_none, TextBuilder.length] at known
        omega

theorem Kept.add (kept : account.Kept) (text : Str) :
    ({ account with
      builder := account.builder.add text, added := account.added ++ text.filter visible } :
        Account).Kept := by
  rw [TextBuilder.add_eq_foldl]
  induction text generalizing account with
  | nil =>
      rw [List.foldl_nil, List.filter_nil, List.append_nil]
      exact kept
  | cons point text ih =>
      rw [List.foldl_cons]
      cases shown : visible point with
      | true =>
          have later := ih (kept.addPoint shown)
          rwa [List.append_assoc, List.singleton_append, ← List.filter_cons_of_pos shown] at later
      | false =>
          have blank : asciiWhitespace point = true := by simpa [visible] using shown
          obtain ⟨written, marks, begun⟩ := @addPoint_blank account.builder point blank
          rw [List.filter_cons_of_neg (by rw [shown]; exact Bool.false_ne_true)]
          exact ih (kept.of_same written marks begun)

theorem Kept.beginMark (kept : account.Kept) :
    ({ account with
      builder := account.builder.beginMark.2
      opened := account.added.length :: account.opened } : Account).Kept where
  spaced := kept.spaced
  added := kept.added
  opened := .cons ⟨fun _ => rfl, nofun⟩ kept.opened
  placed := kept.placed
  idents := List.pairwise_cons.mpr ⟨fun outer listed => kept.openFresh outer listed, kept.idents⟩
  openFresh := List.forall_mem_cons.mpr
    ⟨Nat.lt_succ_self _, fun mark listed => (kept.openFresh mark listed).trans (Nat.lt_succ_self _)⟩
  closedFresh := fun mark listed => (kept.closedFresh mark listed).trans (Nat.lt_succ_self _)
  started := List.pairwise_cons.mpr ⟨nofun, kept.started⟩
  inside := by
    intro mark listed outer open_ earlier
    rcases List.mem_cons.mp open_ with rfl | older
    · exact absurd (kept.closedFresh mark listed) (Nat.lt_asymm earlier)
    · exact kept.inside mark listed outer older earlier
  behind := by
    intro mark listed outer open_ later
    rcases List.mem_cons.mp open_ with rfl | older
    · exact ⟨kept.closedFresh mark listed, nofun⟩
    · exact kept.behind mark listed outer older later
  nested := kept.nested

/-- The mark on top is closed where the text ends. -/
theorem Kept.endMark (kept : account.Kept) {ident : ℕ}
    (closed : account.perform (.endMark ident) = .ok after) : after.Kept := by
  rw [perform, Checked.bind_eq_ok] at closed
  obtain ⟨⟨span, builder⟩, ended, same⟩ := closed
  cases same
  rw [TextBuilder.endMark] at ended
  split at ended
  swap
  · cases ended
  rename_i mark marks stacked
  split_ifs at ended with own
  cases ended
  subst own
  have opened := kept.opened
  rw [stacked, List.forall₂_cons_left_iff] at opened
  obtain ⟨count, counts, here, others, rest⟩ := opened
  rw [rest, List.headD_cons, List.tail_cons]
  have idents := kept.idents
  have started := kept.started
  rw [stacked, List.pairwise_cons] at idents started
  have top : mark ∈ account.builder.marks := stacked ▸ .head _
  have below : ∀ outer ∈ marks, outer ∈ account.builder.marks := fun outer listed =>
    stacked ▸ .tail _ listed
  have early : mark.start.getD account.builder.length ≤ account.builder.length := by
    cases waiting : mark.start with
    | none => exact le_refl _
    | some place => exact (here.begun place waiting).1.le
  have new : (⟨mark.ident, count, account.added.length, mark.start.getD account.builder.length,
      account.builder.length⟩ : ClosedMark).Placed account.text := by
    refine ⟨early, le_refl _, ?_, ?_, fun some => ?_, fun some => ?_⟩
    · cases waiting : mark.start with
      | none =>
          rw [Option.getD_none, ← here.waiting waiting, ← kept.added]
          exact shownBefore_length
      | some place => exact (here.begun place waiting).2.1
    · rw [← kept.added]
      exact shownBefore_length
    · cases waiting : mark.start with
      | none =>
          rw [waiting, Option.getD_none] at some
          exact absurd some (Nat.lt_irrefl _)
      | some place => exact (here.begun place waiting).2.2
    · refine shownAt_pred (fun none => ?_) kept.spaced.trailing
      have empty : account.builder.length = 0 := List.length_eq_zero_iff.mpr none
      dsimp only at some
      omega
  refine ⟨kept.spaced, kept.added, others, List.forall_mem_cons.mpr ⟨new, kept.placed⟩, idents.2, ?_,
    List.forall_mem_cons.mpr ⟨kept.openFresh mark top, kept.closedFresh⟩, started.2, ?_, ?_, ?_⟩
  · exact fun outer listed => kept.openFresh outer (below outer listed)
  · intro closed listed outer open_ earlier
    rcases List.mem_cons.mp listed with rfl | older
    · cases waiting : mark.start with
      | none => exact .inl rfl
      | some place => exact .inr (started.1 outer open_ place waiting)
    · exact kept.inside closed older outer (below outer open_) earlier
  · intro closed listed outer open_ later
    rcases List.mem_cons.mp listed with rfl | older
    · exact absurd (idents.1 outer open_) (Nat.not_lt.mpr later)
    · exact kept.behind closed older outer (below outer open_) later
  · refine List.pairwise_cons.mpr ⟨fun earlier listed => ⟨fun inner => ?_, fun apart => ?_⟩, kept.nested⟩
    · rcases kept.inside earlier listed mark top inner with empty | ⟨place, known, before⟩
      · exact .inl empty
      · refine .inr ⟨?_, (kept.placed earlier listed).within⟩
        rw [known, Option.getD_some]
        exact before
    · obtain ⟨strictly, starts⟩ := kept.behind earlier listed mark top apart
      refine ⟨strictly, ?_⟩
      cases waiting : mark.start with
      | none => exact (kept.placed earlier listed).within
      | some place => exact starts place waiting

/-- Every operation keeps the account. -/
theorem Kept.perform (kept : account.Kept) {operation : Operation}
    (performed : account.perform operation = .ok after) : after.Kept := by
  cases operation with
  | add text =>
      cases performed
      exact kept.add text
  | breakLine count =>
      cases performed
      exact kept.of_same rfl rfl rfl
  | beginMark =>
      cases performed
      exact kept.beginMark
  | endMark ident => exact kept.endMark performed

theorem Kept.performAll (kept : account.Kept) {operations : List Operation}
    (performed : account.performAll operations = .ok after) : after.Kept := by
  induction operations generalizing account with
  | nil =>
      cases performed
      exact kept
  | cons operation operations ih =>
      rw [Account.performAll, List.foldlM_cons, Checked.bind_eq_ok] at performed
      obtain ⟨between, first, rest⟩ := performed
      exact ih (kept.perform first) rest

end Account

/-- A span covers exactly the characters added while its mark was open, and no separator at either
    end of it; a mark that was given none is a place. -/
structure ClosedMark.Covers (text added : Str) (mark : ClosedMark) : Prop where
  ordered : mark.start ≤ mark.stop
  within : mark.stop ≤ text.length
  before : (text.take mark.start).filter visible = added.take mark.openedAt
  inside : (Str.slice text mark.start mark.stop).filter visible =
    Str.slice added mark.openedAt mark.closedAt
  begins : mark.start < mark.stop → ShownAt text mark.start
  ends : mark.start < mark.stop → ShownAt text (mark.stop - 1)
  place : mark.closedAt ≤ mark.openedAt → mark.start = mark.stop

/-- What one mark is to a mark closed after it: inside it, or all before it. -/
structure ClosedMark.Nests (later earlier : ClosedMark) : Prop where
  apart : later.ident ≠ earlier.ident
  inner : later.ident < earlier.ident → ∀ place, earlier.start ≤ place → place < earlier.stop →
    later.start ≤ place ∧ place < later.stop
  behind : earlier.ident < later.ident → earlier.stop ≤ later.start

/-- The text view: its text spaced and exactly what was added, its spans exact and nested. -/
structure Account.Exact (account : Account) : Prop where
  spaced : Spaced account.text
  added : account.text.filter visible = account.added
  covers : ∀ mark ∈ account.closed, mark.Covers account.text account.added
  nested : account.closed.Pairwise ClosedMark.Nests

section Exact

variable {text added : Str}

theorem filter_take_eq (same : text.filter visible = added) (place : ℕ) :
    (text.take place).filter visible = added.take (shownBefore text place) := by
  have begins : (text.take place).filter visible <+: added := by
    rw [← same]
    exact (List.take_prefix place text).filter _
  exact List.prefix_iff_eq_take.mp begins

theorem ClosedMark.Placed.covers {mark : ClosedMark} (placed : mark.Placed text)
    (same : text.filter visible = added) : mark.Covers text added := by
  have before := filter_take_eq same mark.start
  have through := filter_take_eq same mark.stop
  rw [placed.before] at before
  rw [placed.through] at through
  have first : mark.openedAt ≤ added.length := by
    rw [← placed.before, ← same, shownBefore]
    exact ((List.take_prefix _ text).filter _).length_le
  have inside : ((text.take mark.stop).drop mark.start).filter visible =
      (added.take mark.closedAt).drop mark.openedAt := by
    have cut : text.take mark.stop =
        text.take mark.start ++ (text.take mark.stop).drop mark.start := by
      have again := List.take_append_drop mark.start (text.take mark.stop)
      rw [List.take_take, min_eq_left placed.ordered] at again
      exact again.symm
    rw [cut, List.filter_append, before] at through
    rw [← through, List.drop_left' (List.length_take_of_le first)]
  refine ⟨placed.ordered, placed.within, before, inside, placed.begins, placed.ends, fun few => ?_⟩
  by_contra differ
  have some : mark.start < mark.stop := lt_of_le_of_ne placed.ordered differ
  obtain ⟨point, found, shown⟩ := placed.begins some
  have listed : point ∈ (text.take mark.stop).drop mark.start := by
    rw [List.mem_iff_getElem?]
    refine ⟨0, ?_⟩
    rw [List.getElem?_drop, Nat.add_zero, List.getElem?_take_of_lt some, found]
  have kept := List.mem_filter.mpr ⟨listed, shown⟩
  rw [inside, List.drop_eq_nil_of_le] at kept
  · cases kept
  · rw [List.length_take]
    omega

/-- The text view is exact after any operations. -/
theorem Account.Kept.exact {account : Account} (kept : account.Kept) : account.Exact where
  spaced := kept.spaced
  added := kept.added
  covers := fun mark listed => (kept.placed mark listed).covers kept.added
  nested := by
    refine kept.nested.imp fun {later earlier} nested => ⟨fun same => ?_, ?_, ?_⟩
    · exact absurd (nested.2 same.ge).1 (by omega)
    · intro inner place first last
      rcases nested.1 inner with empty | ⟨starts, stops⟩
      · omega
      · omega
    · exact fun behind => (nested.2 behind.le).2

end Exact

end Verbatus.Churro
