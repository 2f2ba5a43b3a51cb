import Verbatus.Pod.GuardLadder

namespace Verbatus.Pod

section Earned

/-- The paths a list names, one a line. -/
def listedPaths (lines : List Bytes) : List Bytes := lines.filter (· ≠ [])

/-- There was no list, or the backup is verified and every path listed was copied and compared
equal. -/
def BackupWorld.Earned (world : BackupWorld) : Prop :=
  match world.list with
  | .empty => True
  | .unreadable => False
  | .lines paths => backUp world = .verified ∧
      ∀ entry ∈ (listedPaths paths).zipIdx 1, world.copied entry.2 entry.1 = .verified

/-- A list that can be read names at least one path, and every path it names is absolute. -/
def BackupWorld.Listed (world : BackupWorld) : Prop :=
  match world.list with
  | .empty => True
  | .unreadable => False
  | .lines paths => listedPaths paths ≠ [] ∧ ∀ path ∈ listedPaths paths, isAbsolute path

variable {world : BackupWorld}

theorem isAbsolute_ne_nil {path : Bytes} (absolute : isAbsolute path = true) : path ≠ [] := by
  rintro rfl
  cases absolute

/-- Lines that are no absolute path change nothing. -/
theorem foldl_backUpLine (before : Backup × ℕ) (lines : List Bytes) :
    lines.foldl (backUpLine world) before =
      (lines.filter isAbsolute).foldl (backUpLine world) before := by
  induction lines generalizing before with
  | nil => rfl
  | cons line lines ih =>
      rw [List.foldl_cons, ih]
      by_cases absolute : isAbsolute line = true
      · rw [List.filter_cons_of_pos absolute, List.foldl_cons]
      · rw [List.filter_cons_of_neg absolute, backUpLine, if_neg absolute]

theorem backUpLine_absolute {before : Backup × ℕ} {path : Bytes} (absolute : isAbsolute path = true) :
    backUpLine world before path =
      if world.copied (before.2 + 1) path = .verified then
        (if before.1 = .failed then .failed else .verified, before.2 + 1)
      else (.failed, before.2 + 1) := by
  rw [backUpLine, if_pos absolute]
  cases world.copied (before.2 + 1) path <;> rfl

/-- A backup that failed stays failed. -/
theorem foldl_failed (paths : List Bytes) (number : ℕ) :
    (paths.foldl (backUpLine world) (.failed, number)).1 = .failed := by
  induction paths generalizing number with
  | nil => rfl
  | cons path paths ih =>
      rw [List.foldl_cons, backUpLine]
      by_cases absolute : isAbsolute path = true
      · rw [if_pos absolute]
        cases world.copied (number + 1) path
        all_goals exact ih _
      · rw [if_neg absolute]
        exact ih number

/-- A backup of absolute paths does not fail only when every one was copied and compared. -/
theorem copied_of_foldl {paths : List Bytes} {result : Backup} {number : ℕ}
    (absolute : ∀ path ∈ paths, isAbsolute path = true)
    (sound : (paths.foldl (backUpLine world) (result, number)).1 ≠ .failed) :
    ∀ entry ∈ paths.zipIdx (number + 1), world.copied entry.2 entry.1 = .verified := by
  induction paths generalizing result number with
  | nil => exact nofun
  | cons path paths ih =>
      obtain ⟨first, later⟩ := List.forall_mem_cons.mp absolute
      rw [List.foldl_cons, backUpLine_absolute first] at sound
      split_ifs at sound with copied failed
      · exact absurd (foldl_failed paths _) sound
      · rw [List.zipIdx_cons]
        exact List.forall_mem_cons.mpr ⟨copied, ih later sound⟩
      · exact absurd (foldl_failed paths _) sound

/-- A backup that has met a path is no longer nothing. -/
theorem foldl_settled (paths : List Bytes) {before : Backup × ℕ} (some : before.1 ≠ .nothing) :
    (paths.foldl (backUpLine world) before).1 ≠ .nothing := by
  induction paths generalizing before with
  | nil => exact some
  | cons path paths ih =>
      rw [List.foldl_cons]
      refine ih ?_
      by_cases absolute : isAbsolute path = true
      · rw [backUpLine_absolute absolute]
        split_ifs
        all_goals exact nofun
      · rwa [backUpLine, if_neg absolute]

/-- A backup that lets the pod go is earned. -/
theorem earned_of_backUp (listed : world.Listed) (sound : backUp world ≠ .failed) :
    world.Earned := by
  rw [BackupWorld.Listed] at listed
  rw [BackupWorld.Earned]
  cases list : world.list with
  | empty => trivial
  | unreadable =>
      rw [list] at listed
      exact listed
  | lines paths =>
      rw [list] at listed
      obtain ⟨named, absolute⟩ := listed
      have same : paths.filter isAbsolute = listedPaths paths := by
        refine List.filter_congr fun path member => ?_
        rw [Bool.eq_iff_iff, decide_eq_true_eq]
        exact ⟨isAbsolute_ne_nil, fun named =>
          absolute path (List.mem_filter.mpr ⟨member, by simpa using named⟩)⟩
      have folded : backUp world = ((listedPaths paths).foldl (backUpLine world) (.nothing, 0)).1 := by
        rw [backUp, list]
        dsimp only
        rw [foldl_backUpLine, same]
      rw [folded] at sound
      refine ⟨?_, copied_of_foldl absolute sound⟩
      have settled : ((listedPaths paths).foldl (backUpLine world) (.nothing, 0)).1 ≠ .nothing := by
        obtain ⟨path, others, split⟩ := List.exists_cons_of_ne_nil named
        have first : isAbsolute path = true := absolute path (by rw [split]; exact .head _)
        rw [split, List.foldl_cons, backUpLine_absolute first]
        refine foldl_settled others ?_
        split_ifs
        all_goals exact nofun
      rw [folded]
      cases result : ((listedPaths paths).foldl (backUpLine world) (.nothing, 0)).1 with
      | nothing => exact absurd result settled
      | verified => rfl
      | failed => exact absurd result sound

end Earned

section Ladder

variable {config : LadderConfig} {ladder : LadderState} {idleFor clock : ℤ} {deletable : Bool}
  {world : BackupWorld}

theorem backsUp_eq_true : backsUp config ladder idleFor = true ↔
    config.backupAfter ≤ idleFor ∧ ladder.backup = none := by
  rw [backsUp, decide_eq_true_eq]

theorem climb_early (early : idleFor < config.warnAfter) :
    (climb config ladder idleFor clock deletable world).ladder.backup = none ∧
      (climb config ladder idleFor clock deletable world).deletes = false := by
  rw [climb, if_pos early]
  exact ⟨rfl, rfl⟩

/-- Past the warning a backup stays what it was, or is the one this climb ran. -/
theorem climb_backup (late : config.warnAfter ≤ idleFor) {result : Backup}
    (backup : (climb config ladder idleFor clock deletable world).ladder.backup = some result) :
    ladder.backup = some result ∨
      (climb config ladder idleFor clock deletable world).backedUp = true ∧
        backUp world = result := by
  rw [climb, if_neg late.not_gt] at backup ⊢
  dsimp only at backup ⊢
  rw [backupAfterClimb] at backup
  split_ifs at backup with ran
  · exact .inr ⟨ran, Option.some.inj backup⟩
  · exact .inl backup

/-- A climb deletes an idle pod whose backup was earned, where deletion is on. -/
theorem climb_deletes (deletes : (climb config ladder idleFor clock deletable world).deletes = true) :
    config.warnAfter ≤ idleFor ∧ config.deleteAfter ≤ idleFor ∧ config.ladderDelete = true ∧
      deletable = true ∧ ∃ result, result ≠ .failed ∧
        (climb config ladder idleFor clock deletable world).ladder.backup = some result := by
  by_cases early : idleFor < config.warnAfter
  · rw [(climb_early early).2] at deletes
    cases deletes
  · rw [climb, if_neg early] at deletes ⊢
    dsimp only at deletes ⊢
    simp only [mayDelete, Bool.and_eq_true, Bool.or_eq_true, decide_eq_true_eq] at deletes
    obtain ⟨long, ⟨on, may⟩, backed⟩ := deletes
    refine ⟨not_lt.mp early, long, on, may, ?_⟩
    rcases backed with verified | nothing
    · exact ⟨.verified, nofun, verified⟩
    · exact ⟨.nothing, nofun, nothing⟩

end Ladder

section Runs

/-- A guard as it stands armed, before its first tick. -/
def armedState (deadline : Guard) (cpuBefore netBefore : Option ℤ) : GuardState :=
  ⟨deadline, ⟨cpuBefore, 0, 1⟩, netBefore, 0, .start⟩

/-- The last ok of the latest fresh progress line. -/
def lastOk : List TickRecord → Option ℤ
  | [] => none
  | record :: earlier =>
    match record.progress with
    | .fresh _ ok => some ok
    | _ => lastOk earlier

/-- The time since the guard armed or since the last ok, whichever is longer. -/
def longestIdle (armedAt : ℤ) (history : List TickRecord) (clock : ℤ) : ℤ :=
  match lastOk history with
  | some ok => max (clock - armedAt) (clock - ok)
  | none => clock - armedAt

/-- No tick comes before the guard is armed, nor sooner than an interval after the tick before. -/
def Spaced (interval armedAt : ℤ) : List TickRecord → Prop
  | [] => True
  | [first] => armedAt ≤ first.input.clock
  | record :: before :: earlier =>
    before.input.clock + interval ≤ record.input.clock ∧ Spaced interval armedAt (before :: earlier)

/-- Thresholds under which work is not idle, a clock that the sleep between ticks moves, and lists
that can be backed up. -/
structure ClearTicks (config : LadderConfig) (armedAt : ℤ) (history : List TickRecord) : Prop where
  apart : 0 < config.warnAfter ∨ 0 < config.deleteAfter
  interval : 0 ≤ config.interval
  spaced : Spaced config.interval armedAt history
  listed : ∀ record ∈ history, record.backedUp = true → record.input.world.Listed

/-- A deletion for idleness: switched on, of a pod that no fresh line calls working, idle for long
enough, with a backup of the same idle episode behind it. -/
structure EarnedDelete (config : LadderConfig) (record : TickRecord) (history : List TickRecord) :
    Prop where
  switchedOn : config.ladderDelete = true
  quiet : ∀ progress ok, readProgress config record.input.clock record.input.progressLine =
    .fresh progress ok → progress = .stalled
  long : config.deleteAfter ≤ record.idleFor
  backed : ∃ earlier ∈ (record :: history).takeWhile fun tick => config.warnAfter ≤ tick.idleFor,
    earlier.backedUp = true ∧ earlier.input.world.Earned

variable {config : LadderConfig} {armedAt : ℤ} {history : List TickRecord} {state : GuardState}
  {input : TickInput} {record : TickRecord} {outcome : TickOutcome}

/-- What one tick does: it ends the guard before the ladder, or it measures the idle time and
climbs. -/
theorem guardTick_cases (tick : guardTick config state input = (outcome, record)) :
    record.input = input ∧
      ((record.idleFor = state.idleFor ∧ (∀ kind ok, record.progress ≠ .fresh kind ok) ∧
          (outcome = .timeIsUp ∨ outcome = .broke)) ∨
        ∃ verdict net deletable,
          record.progress = readProgress config input.clock input.progressLine ∧
          idleTime config state.idleFor input
            (readProgress config input.clock input.progressLine) verdict net =
              (record.idleFor, deletable) ∧
          record.backedUp = (climb config state.ladder record.idleFor input.clock deletable
            input.world).backedUp ∧
          (outcome = .deleted → (climb config state.ladder record.idleFor input.clock deletable
            input.world).deletes = true) ∧
          ∀ next, outcome = .goesOn next → next.idleFor = record.idleFor ∧
            next.ladder = (climb config state.ladder record.idleFor input.clock deletable
              input.world).ladder) := by
  rw [guardTick] at tick
  dsimp only at tick
  split_ifs at tick with passed broken deletes
  · cases tick
    exact ⟨rfl, .inl ⟨rfl, nofun, .inl rfl⟩⟩
  · cases tick
    exact ⟨rfl, .inl ⟨rfl, nofun, .inr rfl⟩⟩
  · cases tick
    refine ⟨rfl, .inr ⟨_, _, _, rfl, rfl, rfl, fun _ => ?_, fun next goesOn => ?_⟩⟩
    · exact deletes
    · cases goesOn
  · cases tick
    refine ⟨rfl, .inr ⟨_, _, _, rfl, rfl, rfl, nofun, fun next goesOn => ?_⟩⟩
    cases goesOn
    exact ⟨rfl, rfl⟩

/-- The ladder's backup was run in the idle episode the history ends with. -/
def BackedBy (config : LadderConfig) (history : List TickRecord) (backup : Option Backup) : Prop :=
  ∀ result, backup = some result →
    ∃ earlier ∈ history.takeWhile fun tick => config.warnAfter ≤ tick.idleFor,
      earlier.backedUp = true ∧ backUp earlier.input.world = result

theorem backedBy_climb {ladder : LadderState} {deletable : Bool} (same : record.input = input)
    (ran : record.backedUp = (climb config ladder record.idleFor input.clock deletable
      input.world).backedUp)
    (backed : BackedBy config history ladder.backup) :
    BackedBy config (record :: history)
      (climb config ladder record.idleFor input.clock deletable input.world).ladder.backup := by
  intro result backup
  by_cases early : record.idleFor < config.warnAfter
  · rw [(climb_early early).1] at backup
    cases backup
  · have late := not_lt.mp early
    rw [List.takeWhile_cons_of_pos (by simpa using late)]
    rcases climb_backup late backup with kept | ⟨here, found⟩
    · obtain ⟨earlier, listed, found⟩ := backed result kept
      exact ⟨earlier, .tail _ listed, found⟩
    · exact ⟨record, .head _, ran.trans here, by rw [same]; exact found⟩

theorem backedBy_run {deadline : Guard} {cpuBefore netBefore : Option ℤ}
    (run : GuardRun config (armedState deadline cpuBefore netBefore) history state) :
    BackedBy config history state.ladder.backup := by
  induction run with
  | armed => exact nofun
  | tick run tick ih =>
      obtain ⟨same, ⟨-, -, ended⟩ | ⟨_, _, _, -, -, ran, -, goesOn⟩⟩ := guardTick_cases tick
      · rcases ended with ended | ended
        all_goals cases ended
      · obtain ⟨-, ladder⟩ := goesOn _ rfl
        rw [ladder]
        exact backedBy_climb same ran ih

/-- A pod that may be deleted is one that no fresh line calls working. -/
theorem idleTime_quiet {verdict : CpuVerdict} {net : Bool} {idleBefore idleFor : ℤ}
    {progress : Progress} {ok : ℤ} (positive : 0 < idleFor)
    (measured : idleTime config idleBefore input (.fresh progress ok) verdict net =
      (idleFor, true)) : progress = .stalled := by
  cases progress with
  | ok =>
      cases measured
      exact absurd positive (lt_irrefl 0)
  | slow => cases measured
  | stalled => rfl
  | bootstrapping => cases measured

theorem countedIdle_le (interval : 0 ≤ config.interval) (idleBefore : ℤ) (input : TickInput)
    (verdict : CpuVerdict) (net : Bool) :
    countedIdle config idleBefore input verdict net ≤ max 0 (idleBefore + config.interval) := by
  rw [countedIdle]
  split_ifs with busy unknown
  · exact le_max_left _ _
  · omega
  · cases keepaliveAge input with
    | none => exact le_max_right _ _
    | some age =>
        dsimp only
        split_ifs <;> omega

theorem lastOk_unread
    (unread : ∀ kind ok, record.progress ≠ .fresh kind ok) : lastOk (record :: history) = lastOk history := by
  rw [lastOk]
  split
  · exact absurd ‹_› (unread _ _)
  · rfl

theorem idleTime_unread {idleBefore : ℤ} {progress : ProgressReading} {verdict : CpuVerdict}
    {net : Bool} (unread : ∀ kind ok, progress ≠ .fresh kind ok) :
    (idleTime config idleBefore input progress verdict net).1 =
      countedIdle config idleBefore input verdict net := by
  cases progress with
  | unread => rfl
  | broken => rfl
  | fresh kind ok => exact absurd rfl (unread kind ok)

theorem longestIdle_armed (armedAt : ℤ) (history : List TickRecord)
    (clock : ℤ) :
    clock - armedAt ≤ longestIdle armedAt history clock := by
  rw [longestIdle]
  split
  · exact le_max_left _ _
  · exact le_rfl

/-- Time that passes makes the longest idle time longer by as much. -/
theorem longestIdle_add (armedAt : ℤ) (history : List TickRecord)
    (clock passed : ℤ) :
    longestIdle armedAt history (clock + passed) =
      longestIdle armedAt history clock + passed := by
  rw [longestIdle, longestIdle]
  split <;> omega

/-- A tick measures no more than has passed, and one interval. -/
theorem idleTime_bounded {verdict : CpuVerdict} {net deletable : Bool} {idleBefore : ℤ}
    (interval : 0 ≤ config.interval) (armed : armedAt ≤ input.clock)
    (read : record.progress = readProgress config input.clock input.progressLine)
    (before : idleBefore ≤ longestIdle armedAt history input.clock)
    (measured : idleTime config idleBefore input
      (readProgress config input.clock input.progressLine) verdict net =
        (record.idleFor, deletable)) :
    record.idleFor ≤ longestIdle armedAt (record :: history) input.clock +
      config.interval := by
  have passed := longestIdle_armed armedAt (record :: history) input.clock
  have idle := congrArg Prod.fst measured
  by_cases fresh : ∃ kind ok, readProgress config input.clock input.progressLine = .fresh kind ok
  · obtain ⟨kind, ok, progress⟩ := fresh
    have latest : lastOk (record :: history) = some ok := by
      rw [lastOk, read, progress]
    have longest : input.clock - ok ≤ longestIdle armedAt (record :: history) input.clock := by
      rw [longestIdle, latest]
      exact le_max_right _ _
    rw [progress] at idle
    cases kind
    all_goals
      dsimp only [idleTime] at idle
      omega
  · simp only [not_exists] at fresh
    have counted := countedIdle_le interval idleBefore input verdict net
    rw [← idleTime_unread fresh, idle] at counted
    have latest : longestIdle armedAt (record :: history) input.clock =
        longestIdle armedAt history input.clock := by
      rw [longestIdle, lastOk_unread (by rw [read]; exact fresh), ← longestIdle]
    omega

/-- The clock of the latest tick, and of the arming before the first one. -/
def latestClock (armedAt : ℤ) : List TickRecord → ℤ
  | [] => armedAt
  | record :: _ => record.input.clock

theorem spaced_tail (spaced : Spaced config.interval armedAt (record :: history)) :
    Spaced config.interval armedAt history := by
  cases history with
  | nil => trivial
  | cons before earlier => exact spaced.2

theorem armed_le {history : List TickRecord} (interval : 0 ≤ config.interval)
    (spaced : Spaced config.interval armedAt history) : armedAt ≤ latestClock armedAt history := by
  induction history with
  | nil => exact le_rfl
  | cons record history ih =>
      cases history with
      | nil => exact spaced
      | cons before earlier =>
          have first := ih spaced.2
          have gap := spaced.1
          dsimp only [latestClock] at first ⊢
          omega

/-- Before a tick the idle time is no longer than what has passed by then. -/
theorem idleFor_le_longest {deadline : Guard} {cpuBefore netBefore : Option ℤ}
    (interval : 0 ≤ config.interval)
    (run : GuardRun config (armedState deadline cpuBefore netBefore) history state)
    (spaced : Spaced config.interval armedAt (record :: history)) :
    state.idleFor ≤ longestIdle armedAt history record.input.clock := by
  induction run generalizing record with
  | armed =>
      have passed := longestIdle_armed armedAt [] record.input.clock
      have later : armedAt ≤ record.input.clock := spaced
      change 0 ≤ _
      omega
  | tick run tick ih =>
      rename_i history state input before next
      obtain ⟨gap, earlier⟩ := spaced
      have known := ih earlier
      have armed := armed_le interval earlier
      obtain ⟨same, ⟨-, -, ended⟩ | ⟨verdict, net, deletable, read, measured, -, -, goesOn⟩⟩ :=
        guardTick_cases tick
      · rcases ended with ended | ended
        all_goals cases ended
      · rw [(goesOn _ rfl).1]
        rw [same] at known gap
        dsimp only [latestClock] at armed
        rw [same] at armed
        have bounded := idleTime_bounded interval armed read known measured
        have later := longestIdle_add armedAt (before :: history) input.clock
          (record.input.clock - input.clock)
        rw [add_sub_cancel] at later
        omega

/-- On every tick of a clear run a deletion for idleness is earned, and the idle time is no longer
than what has passed and one interval. -/
theorem guardTick_earned {deadline : Guard} {cpuBefore netBefore : Option ℤ}
    (run : GuardRun config (armedState deadline cpuBefore netBefore) history state)
    (tick : guardTick config state input = (outcome, record))
    (clear : ClearTicks config armedAt (record :: history)) :
    (outcome = .deleted → EarnedDelete config record history) ∧
      record.idleFor ≤ longestIdle armedAt (record :: history) record.input.clock +
        config.interval := by
  obtain ⟨apart, interval, spaced, listed⟩ := clear
  have before := idleFor_le_longest interval run spaced
  have armed := armed_le interval spaced
  dsimp only [latestClock] at armed
  obtain ⟨same, ⟨kept, unread, ended⟩ | ⟨verdict, net, deletable, read, measured, ran, deletes, -⟩⟩ :=
    guardTick_cases tick
  · refine ⟨fun deleted => ?_, ?_⟩
    · rw [deleted] at ended
      rcases ended with ended | ended
      all_goals cases ended
    · rw [kept, longestIdle, lastOk_unread unread, ← longestIdle]
      omega
  · rw [same] at armed before ⊢
    refine ⟨fun deleted => ?_, idleTime_bounded interval armed read before measured⟩
    obtain ⟨late, long, switchedOn, may, result, sound, backup⟩ := climb_deletes (deletes deleted)
    obtain ⟨earlier, within, backedUp, found⟩ :=
      backedBy_climb same ran (backedBy_run run) result backup
    have world := listed earlier (List.takeWhile_subset _ within) backedUp
    refine ⟨switchedOn, fun progress ok fresh => ?_, long, earlier, within, backedUp,
      earned_of_backUp world (by rwa [found])⟩
    rw [same] at fresh
    rw [fresh, may] at measured
    exact idleTime_quiet (by omega) measured

/-- A ladder whose every step comes after one idle minute. -/
def minuteLadder : LadderConfig where
  interval := 60
  warnAfter := 60
  urgentAfter := 60
  urgentRepeat := 600
  backupAfter := 60
  deleteAfter := 60
  ladderDelete := true
  busyPercent := 5
  busyCpuPercent := 50
  busyNetKbps := 256
  progressFresh := 300

/-- One idle minute on a pod without a GPU, a progress line or a deadline. -/
def idleMinute (world : BackupWorld) : TickInput where
  clock := 1700000000
  deadlineFile := none
  progressLine := none
  cpuReading := some 0
  netReading := some 0
  gpu := .absent
  keepalive := none
  world := world

def armedMinute : GuardState := armedState ⟨[], none, []⟩ (some 0) (some 0)

def minuteRecord (world : BackupWorld) : TickRecord :=
  ⟨idleMinute world, .unread, 60, true,
    [.warn 60, .urgent 60, .backup (backUp world), .delete 60]⟩

/-- No list at all. -/
def noList : BackupWorld := ⟨.empty, fun _ _ => .missing⟩

/-- A list of one path that is not absolute. -/
def relativeList : BackupWorld := ⟨.lines [asciiBytes "runs/a"], fun _ _ => .missing⟩

theorem clearTicks_idleMinute : ClearTicks minuteLadder 1700000000 [minuteRecord noList] where
  apart := .inl (by decide)
  interval := by decide
  spaced := le_rfl
  listed record listed _ := by
    rw [List.mem_singleton.mp listed]
    trivial

/-- An idle pod with nothing to back up is deleted for a reason. -/
theorem guardTick_earned_idleMinute :
    guardTick minuteLadder armedMinute (idleMinute noList) = (.deleted, minuteRecord noList) ∧
      EarnedDelete minuteLadder (minuteRecord noList) [] :=
  ⟨rfl, (guardTick_earned .armed
    (show guardTick minuteLadder armedMinute (idleMinute noList) = _ from rfl)
    clearTicks_idleMinute).1 rfl⟩

/-- A list that names only a relative path is backed up as no list is, and the pod is deleted. -/
theorem not_earned_relativeList :
    ¬ ∀ (config : LadderConfig) (deadline : Guard) (cpuBefore netBefore : Option ℤ)
      (history : List TickRecord) (state : GuardState) (input : TickInput) (record : TickRecord),
      GuardRun config (armedState deadline cpuBefore netBefore) history state →
      guardTick config state input = (.deleted, record) → EarnedDelete config record history := by
  intro always
  have deleted : guardTick minuteLadder armedMinute (idleMinute relativeList) =
    (.deleted, minuteRecord relativeList) := rfl
  obtain ⟨-, -, -, earlier, listed, -, earned⟩ := always _ _ _ _ _ _ _ _ .armed deleted
  rw [List.mem_singleton.mp (List.takeWhile_subset _ listed)] at earned
  exact absurd earned.1 (by decide)

end Runs

end Verbatus.Pod
