import Verbatus.Pod.GuardDeadline

namespace Verbatus.Pod

section Configuration

/-- The guard's settings: seconds, percentages and KiB per second. -/
structure LadderConfig where
  interval : ℤ
  warnAfter : ℤ
  urgentAfter : ℤ
  urgentRepeat : ℤ
  backupAfter : ℤ
  deleteAfter : ℤ
  ladderDelete : Bool
  busyPercent : ℤ
  busyCpuPercent : ℤ
  busyNetKbps : ℤ
  progressFresh : ℤ

end Configuration

section Readings

/-- What `nvidia-smi` says: there is none, it says nothing usable, or one value for each GPU. -/
inductive GpuReading where
  | absent
  | unreported
  | utilization (lines : List (Option ℕ))

/-- A GPU that cannot report its use counts as busy. -/
def gpuBusy (config : LadderConfig) : GpuReading → Bool
  | .absent => false
  | .unreported => true
  | .utilization lines => lines.any fun
    | none => true
    | some percent => config.busyPercent ≤ percent

inductive CpuVerdict where
  | busy
  | idle
  | unknown
  deriving DecidableEq

structure CpuState where
  before : Option ℤ
  unread : ℕ
  span : ℤ

/-- One unreadable reading after a good one is no evidence; a second one counts as busy. -/
def cpuBusy (config : LadderConfig) (cpu : CpuState) (now : Option ℤ) : CpuVerdict × CpuState :=
  match now with
  | none =>
    if cpu.unread + 1 = 1 ∧ cpu.before.isSome then
      (.unknown, { cpu with unread := cpu.unread + 1, span := cpu.span + 1 })
    else (.busy, { cpu with unread := cpu.unread + 1, before := none })
  | some used =>
    let next : CpuState := ⟨some used, 0, 1⟩
    match cpu.before with
    | none => (.unknown, next)
    | some before =>
      if used - before ≥ cpu.span * config.interval * 10000 * config.busyCpuPercent then
        (.busy, next)
      else (.idle, next)

/-- An unreadable reading keeps the last good one. -/
def netBusy (config : LadderConfig) (before now : Option ℤ) : Bool × Option ℤ :=
  match now with
  | none => (false, before)
  | some received =>
    (before.any fun earlier => received - earlier ≥ config.interval * config.busyNetKbps * 1024,
      some received)

end Readings

section Progress

inductive Progress where
  | ok
  | slow
  | stalled
  | bootstrapping
  deriving DecidableEq, Repr

def Progress.text : Progress → Bytes
  | ok => asciiBytes "ok"
  | slow => asciiBytes "slow"
  | stalled => asciiBytes "stalled"
  | bootstrapping => asciiBytes "bootstrapping"

def Progress.ofText (text : Bytes) : Option Progress :=
  [Progress.ok, .slow, .stalled, .bootstrapping].find? (·.text = text)

def space : UInt8 := 32

/-- `${line%% *}` -/
def firstWord (line : Bytes) : Bytes := line.takeWhile (· ≠ space)

/-- `${line#* }`: a line without a space stays as it is. -/
def afterSpace (line : Bytes) : Bytes :=
  match line.dropWhile (· ≠ space) with
  | [] => line
  | _ :: rest => rest

/-- A number in shell arithmetic, where a leading zero makes it octal and may break it. -/
def shellNumber (text : Bytes) : Option ℤ :=
  if text.head? = some 48 then
    if text.all (· < 56) then some (text.foldl (fun value digit => 8 * value + (digit.toNat - 48)) 0)
    else none
  else some (epochOf text)

/-- What a tick finds of pod_run's progress line. -/
inductive ProgressReading where
  | unread
  | broken
  | fresh (progress : Progress) (lastOk : ℤ)
  deriving DecidableEq

/-- `read_progress`: a fresh, well-formed line, and its last ok. -/
def readProgress (config : LadderConfig) (clock : ℤ) (line : Option Bytes) : ProgressReading :=
  match line with
  | none => .unread
  | some line =>
    let now := firstWord line
    let ok := firstWord (afterSpace line)
    if ¬ (isEpoch now ∧ isEpoch ok) then .unread else
    match Progress.ofText (firstWord (afterSpace (afterSpace line))) with
    | none => .unread
    | some progress =>
      match shellNumber now with
      | none => .broken
      | some written =>
        if clock - written ≤ config.progressFresh ∧ written - clock ≤ config.progressFresh then
          match shellNumber ok with
          | none => .broken
          | some lastOk => .fresh progress lastOk
        else .unread

end Progress

section Backups

/-- What the backup list holds when it is opened. -/
inductive BackupList where
  | empty
  | unreadable
  | lines (paths : List Bytes)

/-- What became of one listed path. -/
inductive Copy where
  | missing
  | verified
  | failed
  deriving DecidableEq

/-- What a backup meets: the list, and what becomes of each path by its number. -/
structure BackupWorld where
  list : BackupList
  copied : ℕ → Bytes → Copy

inductive Backup where
  | nothing
  | verified
  | failed
  deriving DecidableEq

def isAbsolute (line : Bytes) : Bool := line.head? = some 47

/-- One line of the list; a line that is no absolute path is passed by. -/
def backUpLine (world : BackupWorld) (before : Backup × ℕ) (line : Bytes) : Backup × ℕ :=
  if isAbsolute line then
    match world.copied (before.2 + 1) line with
    | .verified => (if before.1 = .failed then .failed else .verified, before.2 + 1)
    | _ => (.failed, before.2 + 1)
  else before

def backUp (world : BackupWorld) : Backup :=
  match world.list with
  | .empty => .nothing
  | .unreadable => .nothing
  | .lines paths => (paths.foldl (backUpLine world) (.nothing, 0)).1

end Backups

section Ladder

structure LadderState where
  warned : Bool
  urgentAt : Option ℤ
  backup : Option Backup
  heldNoticed : Bool

def LadderState.start : LadderState := ⟨false, none, none, false⟩

/-- The latest step, as the alert file names it. -/
inductive Alert where
  | resumed (idleFor : ℤ)
  | warn (idleFor : ℤ)
  | urgent (idleFor : ℤ)
  | backup (result : Backup)
  | delete (idleFor : ℤ)
  | held
  deriving DecidableEq

/-- What the ladder did: the alerts it raised, whether it backed up, and whether it deletes. -/
structure LadderResult where
  ladder : LadderState
  alerts : List Alert
  backedUp : Bool
  deletes : Bool

/-- Whether a climb calls `back_up`: once in each idle episode. -/
def backsUp (config : LadderConfig) (ladder : LadderState) (idleFor : ℤ) : Bool :=
  config.backupAfter ≤ idleFor ∧ ladder.backup = none

def backupAfterClimb (config : LadderConfig) (ladder : LadderState) (idleFor : ℤ)
    (world : BackupWorld) : Option Backup :=
  if backsUp config ladder idleFor then some (backUp world) else ladder.backup

def urges (config : LadderConfig) (ladder : LadderState) (idleFor clock : ℤ) : Bool :=
  config.urgentAfter ≤ idleFor ∧
    ladder.urgentAt.all fun before => config.urgentRepeat ≤ clock - before

/-- Whether a pod idle for long enough is deleted, given what became of its backup. -/
def mayDelete (config : LadderConfig) (deletable : Bool) (backup : Option Backup) : Bool :=
  config.ladderDelete && deletable && (backup = some .verified || backup = some .nothing)

/-- One climb of the idle ladder. -/
def climb (config : LadderConfig) (ladder : LadderState) (idleFor clock : ℤ) (deletable : Bool)
    (world : BackupWorld) : LadderResult :=
  if idleFor < config.warnAfter then
    ⟨.start, if ladder.warned then [.resumed idleFor] else [], false, false⟩
  else
    let backup := backupAfterClimb config ladder idleFor world
    let long : Bool := config.deleteAfter ≤ idleFor
    let deletes := long && mayDelete config deletable backup
    let held := long && !deletes
    { ladder := {
        warned := true
        urgentAt := if urges config ladder idleFor clock then some clock else ladder.urgentAt
        backup
        heldNoticed := ladder.heldNoticed || held }
      alerts :=
        (if ladder.warned then [] else [Alert.warn idleFor]) ++
        (if urges config ladder idleFor clock then [Alert.urgent idleFor] else []) ++
        (if backsUp config ladder idleFor then [Alert.backup (backUp world)] else []) ++
        (if deletes then [Alert.delete idleFor] else []) ++
        if held && !ladder.heldNoticed then [Alert.held] else []
      backedUp := backsUp config ladder idleFor
      deletes }

end Ladder

section Ticks

/-- What one tick of the guard reads. -/
structure TickInput where
  clock : ℤ
  deadlineFile : Option Bytes
  progressLine : Option Bytes
  cpuReading : Option ℤ
  netReading : Option ℤ
  gpu : GpuReading
  keepalive : Option ℤ
  world : BackupWorld

structure GuardState where
  deadline : Guard
  cpu : CpuState
  netBefore : Option ℤ
  idleFor : ℤ
  ladder : LadderState

/-- How a tick ends; `shut_down` never returns, and a broken number ends the shell. -/
inductive TickOutcome where
  | goesOn (state : GuardState)
  | timeIsUp
  | broke
  | deleted

/-- What a tick leaves to tell of it. -/
structure TickRecord where
  input : TickInput
  progress : ProgressReading
  idleFor : ℤ
  backedUp : Bool
  alerts : List Alert

/-- Seconds since the keep-alive file was last touched. -/
def keepaliveAge (input : TickInput) : Option ℤ :=
  input.keepalive.map fun touched => max 0 (input.clock - touched)

/-- Idle time by the counters, from the later of the last busy sample and the last touch. -/
def countedIdle (config : LadderConfig) (idleFor : ℤ) (input : TickInput) (cpu : CpuVerdict)
    (net : Bool) : ℤ :=
  if cpu = .busy ∨ net ∨ gpuBusy config input.gpu then 0
  else if cpu = .unknown then idleFor
  else
    let counted := idleFor + config.interval
    match keepaliveAge input with
    | some age => if age < counted then age else counted
    | none => counted

/-- Idle time and whether the pod may be deleted, after the readings of one tick. -/
def idleTime (config : LadderConfig) (idleFor : ℤ) (input : TickInput) (progress : ProgressReading)
    (cpu : CpuVerdict) (net : Bool) : ℤ × Bool :=
  match progress with
  | .fresh .ok _ => (0, true)
  | .fresh .stalled lastOk => (max 0 (input.clock - lastOk), true)
  | .fresh _ lastOk => (max 0 (input.clock - lastOk), false)
  | _ => (countedIdle config idleFor input cpu net, true)

/-- One turn of the main loop. -/
def guardTick (config : LadderConfig) (state : GuardState) (input : TickInput) :
    TickOutcome × TickRecord :=
  let deadline := state.deadline.tick ⟨input.clock, input.deadlineFile⟩
  if deadline.deadline ≠ [] ∧ (epochOf deadline.deadline : ℤ) ≤ input.clock then
    (.timeIsUp, ⟨input, .unread, state.idleFor, false, []⟩)
  else
    let (verdict, cpu) := cpuBusy config state.cpu input.cpuReading
    let (net, netBefore) := netBusy config state.netBefore input.netReading
    let progress := readProgress config input.clock input.progressLine
    if progress = .broken then (.broke, ⟨input, .broken, state.idleFor, false, []⟩) else
    let (idleFor, deletable) := idleTime config state.idleFor input progress verdict net
    let climbed := climb config state.ladder idleFor input.clock deletable input.world
    (if climbed.deletes then .deleted
      else .goesOn ⟨deadline, cpu, netBefore, idleFor, climbed.ladder⟩,
    ⟨input, progress, idleFor, climbed.backedUp, climbed.alerts⟩)

/-- The ticks of a guard so far, the latest first, and the state they lead to. -/
inductive GuardRun (config : LadderConfig) (start : GuardState) : List TickRecord → GuardState → Prop
  | armed : GuardRun config start [] start
  | tick {history state input record next} : GuardRun config start history state →
      guardTick config state input = (.goesOn next, record) →
      GuardRun config start (record :: history) next

end Ticks

end Verbatus.Pod
