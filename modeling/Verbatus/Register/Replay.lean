import Mathlib.Data.List.Chain
import Verbatus.Library.Stacks
import Verbatus.Register.Records

namespace Verbatus.Register

open Library Library.Checked Refusal Python CodePoint Canonical
open Identities (str)

variable {rules : RegisterRules}

section History

/-- What a membership record declares: the page, the link, and the link it succeeds. -/
structure Declared where
  page : Str
  link : Link
  predecessor : JsonValue
  deriving DecidableEq

variable (rules) in
/-- The link a record declares. -/
def declaredOf (record : JsonValue) : Option Declared :=
  match record with
  | .object fields =>
    if kindOf fields = some .membership then
      match membershipPage (fieldOf "physical_page_id" fields),
          digests (fieldOf "members" fields) "membership members", digestOf rules fields with
      | .ok page, .ok members, .ok digest =>
        some ⟨page, ⟨digest, members⟩, fieldOf "predecessor" fields⟩
      | _, _, _ => none
    else none
  | _ => none

/-- What a retraction takes back. -/
inductive Withdrawal where
  | link (digest : Str)
  | correspondence (identity : Str)
  deriving DecidableEq

/-- What a record takes back. -/
def withdrawalOf (record : JsonValue) : Option Withdrawal :=
  match record with
  | .object fields =>
    if kindOf fields = some .retraction then
      some (if membershipMark.isPrefixOf (retracted fields) then
        .link ((retracted fields).drop membershipMark.length)
      else .correspondence (retracted fields))
    else none
  | _ => none

/-- The digest of the link a record takes back. -/
def withdrawnLink (record : JsonValue) : Option Str :=
  match withdrawalOf record with
  | some (.link digest) => some digest
  | _ => none

/-- The correspondence a record declares. -/
def correspondenceOf (record : JsonValue) : Option Str :=
  match record with
  | .object fields =>
    if kindOf fields = some .correspondence then
      match fieldOf "act_id" fields, fieldOf "physical_act_id" fields with
      | .str act, .str physicalAct => some (correspondenceIdentity act physicalAct)
      | _, _ => none
    else none
  | _ => none

variable (rules) in
def declaredOn (page : Str) (record : JsonValue) : List Declared :=
  (declaredOf rules record).toList.filter fun declared => declared.page = page

variable (rules) in
/-- The links of a page that no later record takes back, oldest first. -/
def liveLinks (page : Str) : List JsonValue → List Declared
  | [] => []
  | record :: later =>
    (declaredOn rules page record).filter
      (fun declared => declared.link.digest ∉ later.filterMap withdrawnLink) ++
    liveLinks page later

/-- A correspondence that is declared, and not taken back after that. -/
def LiveCorrespondence (identity : Str) (records : List JsonValue) : Prop :=
  ∃ before record later, records = before ++ record :: later ∧
    correspondenceOf record = some identity ∧
    ∀ other ∈ later, withdrawalOf other ≠ some (.correspondence identity)

/-- A link names the digest of the link before it, and adds to its members. -/
def Succeeds (prior next : Declared) : Prop :=
  next.predecessor = .str prior.link.digest ∧
    prior.link.members ⊆ next.link.members ∧ ¬ next.link.members ⊆ prior.link.members

/-- A chain starts without a predecessor, and each link succeeds the one before it. -/
def Chained (links : List Declared) : Prop :=
  (∀ first ∈ links.head?, first.predecessor = .null) ∧ links.IsChain Succeeds

theorem liveLinks_append_one (page : Str) (records : List JsonValue) (record : JsonValue) :
    liveLinks rules page (records ++ [record]) =
      (liveLinks rules page records).filter
        (fun declared => withdrawnLink record ≠ some declared.link.digest) ++
      declaredOn rules page record := by
  induction records with
  | nil => simp [liveLinks]
  | cons first records ih =>
      rw [List.cons_append, liveLinks, ih, liveLinks, List.filter_append, List.filter_filter,
        List.append_assoc]
      congr 1
      apply List.filter_congr
      intro declared _
      have one : declared.link.digest ∈ [record].filterMap withdrawnLink ↔
          withdrawnLink record = some declared.link.digest := by
        simp [List.mem_filterMap]
      rw [List.filterMap_append, ← Bool.decide_and, decide_eq_decide, List.mem_append, one, not_or]
      exact and_comm

theorem mem_declaredOn {page : Str} {record : JsonValue} {declared : Declared} :
    declared ∈ declaredOn rules page record ↔
      declaredOf rules record = some declared ∧ declared.page = page := by
  rw [declaredOn, List.mem_filter, Option.mem_toList, decide_eq_true_eq]

theorem liveLinks_sublist (page : Str) (records : List JsonValue) :
    (liveLinks rules page records).Sublist (records.filterMap (declaredOf rules)) := by
  induction records with
  | nil => exact .slnil
  | cons record records ih =>
      rw [liveLinks, declaredOn]
      cases declared : declaredOf rules record with
      | none => simpa [List.filterMap_cons, declared] using ih
      | some found =>
          rw [List.filterMap_cons, declared]
          have own := (List.filter_sublist (p := fun declared => declared.link.digest ∉
            records.filterMap withdrawnLink)).trans
            (List.filter_sublist (p := fun declared => declared.page = page) (l := [found]))
          exact own.append ih

theorem page_of_live {page : Str} {records : List JsonValue} {declared : Declared}
    (live : declared ∈ liveLinks rules page records) : declared.page = page := by
  induction records with
  | nil => cases live
  | cons record records ih =>
      rw [liveLinks, List.mem_append] at live
      rcases live with own | later
      · exact (mem_declaredOn.mp (List.mem_of_mem_filter own)).2
      · exact ih later

theorem liveCorrespondence_append_one (identity : Str) (records : List JsonValue)
    (record : JsonValue) :
    LiveCorrespondence identity (records ++ [record]) ↔ correspondenceOf record = some identity ∨
      (LiveCorrespondence identity records ∧
        withdrawalOf record ≠ some (.correspondence identity)) := by
  constructor
  · rintro ⟨before, declaration, later, same, declares, kept⟩
    rcases List.eq_nil_or_concat later with rfl | ⟨more, final, rfl⟩
    · obtain ⟨-, last⟩ := List.append_inj' same rfl
      obtain rfl := List.singleton_inj.mp last
      exact .inl declares
    · rw [List.concat_eq_append] at same kept
      rw [← List.cons_append, ← List.append_assoc] at same
      obtain ⟨rest, last⟩ := List.append_inj' same rfl
      obtain rfl := List.singleton_inj.mp last
      exact .inr ⟨⟨before, declaration, more, rest, declares,
        fun other member => kept other (List.mem_append_left _ member)⟩,
        kept record (List.mem_append_right _ (.head _))⟩
  · rintro (declares | ⟨⟨before, declaration, later, rfl, declares, kept⟩, still⟩)
    · exact ⟨records, record, [], rfl, declares, fun _ absent => nomatch absent⟩
    · refine ⟨before, declaration, later ++ [record], by simp, declares, ?_⟩
      rw [List.forall_mem_append, List.forall_mem_singleton]
      exact ⟨kept, still⟩

end History

section Steps

variable {reading next : Reading} {record : JsonValue}

/-- Which membership chain a record changes, and how. -/
inductive Membership (rules : RegisterRules) (reading next : Reading) (record : JsonValue) : Prop where
  | other (undeclared : declaredOf rules record = none) (kept : withdrawnLink record = none)
    (head : next.membershipHead = reading.membershipHead)
    (chain : next.membershipChain = reading.membershipChain)
  | linked (declared : Declared) (declares : declaredOf rules record = some declared)
    (kept : withdrawnLink record = none)
    (succession : checkSuccession declared.page declared.predecessor declared.link.members reading =
      .ok ())
    (fresh : membershipMark ++ declared.link.digest ∉ reading.seen)
    (seen : membershipMark ++ declared.link.digest ∈ next.seen)
    (head : next.membershipHead = (reading.linked declared.page declared.link).membershipHead)
    (chain : next.membershipChain = (reading.linked declared.page declared.link).membershipChain)
  | unlinked (target page : Str) (undeclared : declaredOf rules record = none)
    (takes : withdrawnLink record = some target) (headed : reading.headedBy target = some page)
    (head : next.membershipHead = (reading.unlinked page target).membershipHead)
    (chain : next.membershipChain = (reading.unlinked page target).membershipChain)

/-- What a record does to the correspondences. -/
def Corresponds (reading next : Reading) (record : JsonValue) : Prop :=
  ∀ identity, identity ∈ next.correspondenceRecords ↔ correspondenceOf record = some identity ∨
    (identity ∈ reading.correspondenceRecords ∧
      withdrawalOf record ≠ some (.correspondence identity))

theorem validateRecord_eq_ok (done : validateRecord rules reading record = .ok next) :
    ∃ fields identity found, record = .object fields ∧
      readKind rules fields reading = .ok (identity, found) ∧ identity ∉ reading.seen ∧
      next = { found with seen := identity :: reading.seen } := by
  cases record with
  | object fields =>
      obtain ⟨⟨identity, found⟩, read, done⟩ := bind_eq_ok.mp done
      obtain ⟨fresh, done⟩ := require_bind_eq_ok.mp done
      exact ⟨fields, identity, found, rfl, read, fresh, (Except.ok.inj done).symm⟩
  | null | bool | int | float | str | list => cases done

theorem kindOf_facts {fields : List (Str × JsonValue)} {kind : RecordKind}
    (named : kindOf fields = some kind) :
    (kind ≠ .membership → declaredOf rules (.object fields) = none) ∧
    (kind ≠ .retraction → withdrawalOf (.object fields) = none) ∧
    (kind ≠ .correspondence → correspondenceOf (.object fields) = none) := by
  refine ⟨fun other => ?_, fun other => ?_, fun other => ?_⟩
  · rw [declaredOf, named, if_neg fun same => other (Option.some.inj same)]
  · rw [withdrawalOf, named, if_neg fun same => other (Option.some.inj same)]
  · rw [correspondenceOf, named, if_neg fun same => other (Option.some.inj same)]

theorem withdrawnLink_of_none (kept : withdrawalOf record = none) : withdrawnLink record = none := by
  rw [withdrawnLink, kept]

theorem readMembership_eq_ok {fields : List (Str × JsonValue)} {identity : Str} {found : Reading}
    (kind : kindOf fields = some .membership)
    (read : readMembership rules fields reading = .ok (identity, found)) :
    ∃ declared, declaredOf rules (.object fields) = some declared ∧
      checkSuccession declared.page declared.predecessor declared.link.members reading = .ok () ∧
      identity = membershipMark ++ declared.link.digest ∧
      found = reading.linked declared.page declared.link := by
  obtain ⟨_, -, read⟩ := bind_eq_ok.mp read
  obtain ⟨⟨page, link⟩, valid, read⟩ := bind_eq_ok.mp read
  cases read
  obtain ⟨name, named, valid⟩ := bind_eq_ok.mp valid
  obtain ⟨-, valid⟩ := require_bind_eq_ok.mp valid
  obtain ⟨members, listed, valid⟩ := bind_eq_ok.mp valid
  obtain ⟨-, valid⟩ := require_bind_eq_ok.mp valid
  obtain ⟨_, follows, valid⟩ := bind_eq_ok.mp valid
  obtain ⟨digest, hashed, valid⟩ := bind_eq_ok.mp valid
  cases valid
  refine ⟨⟨page, ⟨digest, members⟩, fieldOf "predecessor" fields⟩, ?_, follows, rfl, rfl⟩
  rw [declaredOf, if_pos kind, named, listed, hashed]

theorem readRetraction_eq_ok {fields : List (Str × JsonValue)} {identity : Str} {found : Reading}
    (read : readRetraction fields reading = .ok (identity, found)) :
    withdraw (retracted fields) reading = .ok found := by
  obtain ⟨_, -, read⟩ := bind_eq_ok.mp read
  obtain ⟨-, read⟩ := require_bind_eq_ok.mp read
  obtain ⟨after, taken, read⟩ := bind_eq_ok.mp read
  cases read
  exact taken

theorem readPage_eq_ok {fields : List (Str × JsonValue)} {identity : Str} {found : Reading}
    (read : readPage rules fields reading = .ok (identity, found)) :
    found = { reading with physicalPages := identity :: reading.physicalPages } := by
  obtain ⟨_, -, read⟩ := bind_eq_ok.mp read
  obtain ⟨expected, -, read⟩ := bind_eq_ok.mp read
  obtain ⟨-, read⟩ := require_bind_eq_ok.mp read
  obtain ⟨-, read⟩ := require_bind_eq_ok.mp read
  cases read
  rfl

theorem readPhysicalAct_eq_ok {fields : List (Str × JsonValue)} {identity : Str} {found : Reading}
    (read : readPhysicalAct rules fields reading = .ok (identity, found)) :
    ∃ page, found = { reading with
      physicalActs := identity :: reading.physicalActs
      physicalActPages := reading.physicalActPages.set identity page } := by
  obtain ⟨_, -, read⟩ := bind_eq_ok.mp read
  obtain ⟨expected, -, read⟩ := bind_eq_ok.mp read
  obtain ⟨-, read⟩ := require_bind_eq_ok.mp read
  obtain ⟨_, -, read⟩ := bind_eq_ok.mp read
  obtain ⟨page, -, read⟩ := bind_eq_ok.mp read
  cases read
  exact ⟨page, rfl⟩

theorem requireDeclared_eq_ok {value : JsonValue} {declared : List Str} {what : String}
    {identity : Str} (done : requireDeclared value declared what = .ok identity) :
    value = .str identity ∧ identity ∈ declared := by
  cases value with
  | str text =>
      obtain ⟨member, done⟩ := require_bind_eq_ok.mp done
      cases done
      exact ⟨rfl, member⟩
  | null | bool | int | float | list | object => cases done

theorem readCorrespondence_eq_ok {fields : List (Str × JsonValue)} {identity : Str} {found : Reading}
    (kind : kindOf fields = some .correspondence)
    (read : readCorrespondence rules fields reading = .ok (identity, found)) :
    ∃ own, correspondenceOf (.object fields) = some own ∧ own ∉ reading.correspondenceRecords ∧
      found = { reading with correspondenceRecords := reading.correspondenceRecords.set own fields } := by
  obtain ⟨_, -, read⟩ := bind_eq_ok.mp read
  obtain ⟨-, read⟩ := require_bind_eq_ok.mp read
  iterate 4 obtain ⟨_, -, read⟩ := bind_eq_ok.mp read
  obtain ⟨expected, -, read⟩ := bind_eq_ok.mp read
  obtain ⟨act, read⟩ := require_bind_eq_ok.mp read
  obtain ⟨_, -, read⟩ := bind_eq_ok.mp read
  obtain ⟨page, -, read⟩ := bind_eq_ok.mp read
  obtain ⟨physicalAct, declared, read⟩ := bind_eq_ok.mp read
  obtain ⟨-, read⟩ := require_bind_eq_ok.mp read
  obtain ⟨fresh, read⟩ := require_bind_eq_ok.mp read
  cases read
  refine ⟨correspondenceIdentity expected physicalAct, ?_, fresh, rfl⟩
  rw [correspondenceOf, if_pos kind, act, (requireDeclared_eq_ok declared).1]

/-- What a retraction takes back. -/
theorem withdraw_eq_ok {target : Str} {found : Reading}
    (taken : withdraw target reading = .ok found) :
    (∃ page, membershipMark.isPrefixOf target = true ∧
      reading.headedBy (target.drop membershipMark.length) = some page ∧
      found = reading.unlinked page (target.drop membershipMark.length)) ∨
    (membershipMark.isPrefixOf target = false ∧ target ∈ reading.correspondenceRecords ∧
      found = { reading with correspondenceRecords := reading.correspondenceRecords.without target }) := by
  rw [withdraw] at taken
  split at taken
  · next marked =>
    rw [retractMembership] at taken
    cases headed : reading.headedBy (target.drop membershipMark.length) with
    | none => rw [headed] at taken; cases taken
    | some page =>
        rw [headed] at taken
        cases taken
        exact .inl ⟨page, marked, rfl, rfl⟩
  · next unmarked =>
    split at taken
    · next declared =>
      cases taken
      exact .inr ⟨Bool.eq_false_iff.mpr unmarked, declared, rfl⟩
    · cases taken

theorem kindOf_of_readKind {fields : List (Str × JsonValue)} {found : Str × Reading}
    (read : readKind rules fields reading = .ok found) : ∃ kind, kindOf fields = some kind := by
  cases named : kindOf fields with
  | none => rw [readKind, named] at read; cases read
  | some kind => exact ⟨kind, rfl⟩

/-- What one accepted record does to the chains. -/
theorem validateRecord_membership (done : validateRecord rules reading record = .ok next) :
    Membership rules reading next record := by
  obtain ⟨fields, identity, found, rfl, read, fresh, rfl⟩ := validateRecord_eq_ok done
  obtain ⟨kind, named⟩ := kindOf_of_readKind read
  obtain ⟨undeclared, kept, -⟩ := @kindOf_facts rules _ _ named
  rw [readKind, named] at read
  cases kind with
  | physicalPage =>
      rw [readPage_eq_ok read]
      exact .other (undeclared (by decide)) (withdrawnLink_of_none (kept (by decide))) rfl rfl
  | physicalAct =>
      obtain ⟨page, rfl⟩ := readPhysicalAct_eq_ok read
      exact .other (undeclared (by decide)) (withdrawnLink_of_none (kept (by decide))) rfl rfl
  | correspondence =>
      obtain ⟨own, -, -, rfl⟩ := readCorrespondence_eq_ok named read
      exact .other (undeclared (by decide)) (withdrawnLink_of_none (kept (by decide))) rfl rfl
  | membership =>
      obtain ⟨declared, declares, follows, rfl, rfl⟩ := readMembership_eq_ok named read
      exact .linked declared declares (withdrawnLink_of_none (kept (by decide))) follows fresh
        (.head _) rfl rfl
  | retraction =>
      have takes : withdrawalOf (.object fields) = some (if membershipMark.isPrefixOf (retracted fields)
          then .link ((retracted fields).drop membershipMark.length)
          else .correspondence (retracted fields)) := if_pos named
      rcases withdraw_eq_ok (readRetraction_eq_ok read) with ⟨page, marked, headed, rfl⟩ |
        ⟨unmarked, -, rfl⟩
      · refine .unlinked _ page (undeclared (by decide)) ?_ headed rfl rfl
        rw [withdrawnLink, takes, if_pos marked]
      · refine .other (undeclared (by decide)) ?_ rfl rfl
        rw [withdrawnLink, takes, if_neg (Bool.eq_false_iff.mp unmarked)]

/-- What one accepted record does to the correspondences. -/
theorem validateRecord_corresponds (done : validateRecord rules reading record = .ok next) :
    Corresponds reading next record := by
  obtain ⟨fields, identity, found, rfl, read, -, rfl⟩ := validateRecord_eq_ok done
  obtain ⟨kind, named⟩ := kindOf_of_readKind read
  obtain ⟨-, kept, undeclared⟩ := @kindOf_facts rules _ _ named
  rw [readKind, named] at read
  intro other
  cases kind with
  | physicalPage =>
      rw [readPage_eq_ok read, undeclared (by decide), kept (by decide)]
      simp
  | physicalAct =>
      obtain ⟨page, rfl⟩ := readPhysicalAct_eq_ok read
      rw [undeclared (by decide), kept (by decide)]
      simp
  | membership =>
      obtain ⟨declared, -, -, -, rfl⟩ := readMembership_eq_ok named read
      rw [undeclared (by decide), kept (by decide)]
      simp [Reading.linked]
  | correspondence =>
      obtain ⟨own, declares, -, rfl⟩ := readCorrespondence_eq_ok named read
      rw [declares, kept (by decide), Mapping.mem_set]
      simp [eq_comm]
  | retraction =>
      have takes : withdrawalOf (.object fields) = some (if membershipMark.isPrefixOf (retracted fields)
          then .link ((retracted fields).drop membershipMark.length)
          else .correspondence (retracted fields)) := if_pos named
      rw [undeclared (by decide), takes]
      rcases withdraw_eq_ok (readRetraction_eq_ok read) with ⟨page, marked, -, rfl⟩ |
        ⟨unmarked, -, rfl⟩
      · rw [if_pos marked]
        simp [Reading.unlinked]
      · rw [if_neg (Bool.eq_false_iff.mp unmarked), Mapping.mem_without]
        simp [eq_comm, and_comm]

end Steps

section Invariant

/-- What the reading of a list of records holds. -/
structure Sound (rules : RegisterRules) (records : List JsonValue) (reading : Reading) : Prop where
  head : ∀ page, reading.membershipHead.get? page = (reading.chain page).getLast?
  chain : ∀ page, reading.chain page = (liveLinks rules page records).map Declared.link
  seen : ∀ declared ∈ records.filterMap (declaredOf rules),
    membershipMark ++ declared.link.digest ∈ reading.seen
  distinct : ((records.filterMap (declaredOf rules)).map fun declared => declared.link.digest).Nodup
  dead : ∀ target ∈ records.filterMap withdrawnLink,
    target ∈ (records.filterMap (declaredOf rules)).map (fun declared => declared.link.digest) ∧
      ∀ page, ∀ declared ∈ liveLinks rules page records, declared.link.digest ≠ target
  once : (records.filterMap withdrawnLink).Nodup
  chained : ∀ page, Chained (liveLinks rules page records)
  corresponds : ∀ identity, identity ∈ reading.correspondenceRecords ↔
    LiveCorrespondence identity records

variable {reading next : Reading} {records : List JsonValue} {record : JsonValue}

theorem Reading.start_sound : Sound rules [] .start where
  head := fun _ => rfl
  chain := fun _ => rfl
  seen := fun _ absent => nomatch absent
  distinct := List.nodup_nil
  dead := fun _ absent => nomatch absent
  once := List.nodup_nil
  chained := fun _ => ⟨nofun, .nil⟩
  corresponds := by
    intro identity
    refine iff_of_false (fun inside => nomatch inside) ?_
    rintro ⟨before, record, later, same, -⟩
    exact absurd same (by simp)

/-- A live link is a declared one. -/
theorem declared_of_live {page : Str} {declared : Declared}
    (live : declared ∈ liveLinks rules page records) :
    declared ∈ records.filterMap (declaredOf rules) :=
  (liveLinks_sublist page records).subset live

/-- Two declared links of one digest are one link. -/
theorem Sound.declared_unique (sound : Sound rules records reading) {first second : Declared}
    (one : first ∈ records.filterMap (declaredOf rules))
    (other : second ∈ records.filterMap (declaredOf rules))
    (same : first.link.digest = second.link.digest) : first = second :=
  List.inj_on_of_nodup_map sound.distinct one other same

theorem liveLinks_idle (undeclared : declaredOf rules record = none)
    (kept : withdrawnLink record = none) (page : Str) :
    liveLinks rules page (records ++ [record]) = liveLinks rules page records := by
  rw [liveLinks_append_one, kept, declaredOn, undeclared]
  simp

theorem liveLinks_declared {declared : Declared} (declares : declaredOf rules record = some declared)
    (kept : withdrawnLink record = none) (page : Str) :
    liveLinks rules page (records ++ [record]) =
      liveLinks rules page records ++ if declared.page = page then [declared] else [] := by
  rw [liveLinks_append_one, kept, declaredOn, declares]
  by_cases same : declared.page = page <;> simp [same]

theorem liveLinks_withdrawn {target : Str} (undeclared : declaredOf rules record = none)
    (takes : withdrawnLink record = some target) (page : Str) :
    liveLinks rules page (records ++ [record]) =
      (liveLinks rules page records).filter fun declared => declared.link.digest ≠ target := by
  rw [liveLinks_append_one, takes, declaredOn, undeclared]
  simp [eq_comm]

/-- A link that heads a page's chain is the newest live one of the page. -/
theorem Sound.newest_of_headed (sound : Sound rules records reading) {target page : Str}
    (headed : reading.headedBy target = some page) :
    ∃ last, (liveLinks rules page records).getLast? = some last ∧ last.link.digest = target := by
  obtain ⟨⟨name, link⟩, found, rfl⟩ := Option.map_eq_some_iff.mp headed
  have heads := List.find?_some found
  rw [Bool.and_eq_true, decide_eq_true_eq] at heads
  have stored := Mapping.get?_eq_some.mpr (List.mem_of_find?_eq_some found)
  rw [sound.head, sound.chain, List.getLast?_map, Option.map_eq_some_iff] at stored
  obtain ⟨last, newest, same⟩ := stored
  refine ⟨last, newest, ?_⟩
  rw [same]
  exact heads.1

/-- The move a record makes on the live links of the pages. -/
theorem liveLinks_moves (sound : Sound rules records reading)
    (done : validateRecord rules reading record = .ok next) :
    ∃ move : StackMove Str Declared,
      move.Makes (fun page => liveLinks rules page records)
        (fun page => liveLinks rules page (records ++ [record])) ∧
      (∀ page declared, move = .push page declared →
        declared.page = page ∧ declaredOf rules record = some declared) ∧
      (∀ declared, declaredOf rules record = some declared → move = .push declared.page declared) ∧
      (∀ target, withdrawnLink record = some target →
        ∃ page declared, move = .pop page declared ∧ declared.link.digest = target) := by
  rcases validateRecord_membership done with ⟨undeclared, kept, -, -⟩ |
    ⟨declared, declares, kept, -, -, -, -, -⟩ | ⟨target, page, undeclared, takes, headed, -, -⟩
  · refine ⟨.idle, funext (liveLinks_idle undeclared kept), nofun, ?_, ?_⟩
    · rw [undeclared]
      nofun
    · rw [kept]
      nofun
  · refine ⟨.push declared.page declared, ⟨?_, fun other apart => ?_⟩, ?_, ?_, ?_⟩
    · simp only [liveLinks_declared declares kept, if_true]
    · simp only [liveLinks_declared declares kept, if_neg (Ne.symm apart), List.append_nil]
    · rintro page given same
      cases same
      exact ⟨rfl, declares⟩
    · intro given same
      rw [declares] at same
      cases same
      rfl
    · rw [kept]
      nofun
  · obtain ⟨last, newest, digest⟩ := sound.newest_of_headed headed
    obtain ⟨init, shape⟩ := List.getLast?_eq_some_iff.mp newest
    have distinct : ((liveLinks rules page records).map fun declared => declared.link.digest).Nodup :=
      sound.distinct.sublist ((liveLinks_sublist page records).map _)
    refine ⟨.pop page last, ⟨?_, fun other apart => ?_⟩, nofun, ?_, ?_⟩
    · simp only [liveLinks_withdrawn undeclared takes]
      rw [shape, List.map_append, List.nodup_append] at distinct
      rw [shape, List.filter_append, List.filter_eq_self.mpr]
      · simp [digest]
      · intro declared inside
        apply decide_eq_true
        intro equal
        exact distinct.2.2 _ (List.mem_map_of_mem inside) _ (List.mem_map_of_mem (.head _))
          (equal.trans digest.symm)
    · simp only [liveLinks_withdrawn undeclared takes]
      rw [List.filter_eq_self]
      intro declared live
      apply decide_eq_true
      intro equal
      have one := sound.declared_unique (declared_of_live live)
        (declared_of_live (List.mem_of_getLast? newest)) (equal.trans digest.symm)
      apply apart
      rw [← page_of_live live, one]
      exact page_of_live (List.mem_of_getLast? newest)
    · rw [undeclared]
      nofun
    · intro given same
      rw [takes] at same
      cases same
      exact ⟨page, last, rfl, digest⟩

theorem succession_first {page : Str} {predecessor : JsonValue} {members : List Str}
    (follows : checkSuccession page predecessor members reading = .ok ())
    (headless : reading.membershipHead.get? page = none) : predecessor = .null := by
  rw [checkSuccession, headless] at follows
  obtain ⟨_, -, follows⟩ := bind_eq_ok.mp follows
  exact require_eq_ok.mp follows

theorem succession_later {page : Str} {predecessor : JsonValue} {members : List Str} {prior : Link}
    (follows : checkSuccession page predecessor members reading = .ok ())
    (headed : reading.membershipHead.get? page = some prior) :
    predecessor = .str prior.digest ∧ prior.members ⊆ members ∧ ¬ members ⊆ prior.members := by
  rw [checkSuccession, headed] at follows
  obtain ⟨named, follows⟩ := require_bind_eq_ok.mp follows
  exact ⟨named, require_eq_ok.mp follows⟩

theorem Chained.push {links : List Declared} {declared : Declared} (chained : Chained links)
    (first : links = [] → declared.predecessor = .null)
    (later : ∀ last ∈ links.getLast?, Succeeds last declared) : Chained (links ++ [declared]) := by
  refine ⟨?_, List.isChain_append.mpr ⟨chained.2, .singleton _, ?_⟩⟩
  · cases links with
    | nil =>
        rintro _ ⟨⟩
        exact first rfl
    | cons link links => exact chained.1
  · rintro last newest _ ⟨⟩
    exact later last newest

theorem Chained.pop {links : List Declared} {declared : Declared}
    (chained : Chained (links ++ [declared])) : Chained links := by
  refine ⟨?_, chained.2.left_of_append⟩
  cases links with
  | nil => nofun
  | cons link links => exact chained.1

theorem Reading.linked_head (page other : Str) (link : Link) :
    (reading.linked page link).membershipHead.get? other =
      if other = page then some link else reading.membershipHead.get? other :=
  Mapping.get?_set ..

theorem Reading.linked_chain (page other : Str) (link : Link) :
    (reading.linked page link).chain other =
      if other = page then reading.chain page ++ [link] else reading.chain other := by
  rw [Reading.chain, Reading.linked, Mapping.get?_set]
  split <;> rfl

theorem Reading.unlinked_chain (page other target : Str) :
    (reading.unlinked page target).chain other =
      if other = page then (reading.chain page).dropLast else reading.chain other := by
  rw [Reading.chain, Reading.unlinked, Mapping.get?_set]
  split <;> rfl

theorem Reading.unlinked_head (page other target : Str) :
    (reading.unlinked page target).membershipHead.get? other =
      if other = page then (reading.chain page).dropLast.getLast?
      else reading.membershipHead.get? other := by
  rw [Reading.unlinked]
  cases newest : (reading.chain page).dropLast.getLast? with
  | none => exact Mapping.get?_without ..
  | some link => exact Mapping.get?_set ..

theorem chain_congr {other : Reading} (same : next.membershipChain = other.membershipChain)
    (page : Str) : next.chain page = other.chain page := by
  rw [Reading.chain, same, Reading.chain]

theorem seen_mono (done : validateRecord rules reading record = .ok next) :
    reading.seen ⊆ next.seen := by
  obtain ⟨fields, identity, found, rfl, -, -, rfl⟩ := validateRecord_eq_ok done
  exact List.subset_cons_self _ _

/-- Every accepted record keeps a reading sound. -/
theorem Sound.step (sound : Sound rules records reading)
    (done : validateRecord rules reading record = .ok next) :
    Sound rules (records ++ [record]) next := by
  have correspondences : ∀ identity, identity ∈ next.correspondenceRecords ↔
      LiveCorrespondence identity (records ++ [record]) := by
    intro identity
    rw [validateRecord_corresponds done identity, liveCorrespondence_append_one,
      sound.corresponds identity]
  have grown := seen_mono done
  rcases validateRecord_membership done with ⟨undeclared, kept, head, chain⟩ |
    ⟨declared, declares, kept, follows, fresh, seen, head, chain⟩ |
    ⟨target, page, undeclared, takes, headed, head, chain⟩
  · have same := @liveLinks_idle rules records record undeclared kept
    have declarations : (records ++ [record]).filterMap (declaredOf rules) =
        records.filterMap (declaredOf rules) := by
      rw [List.filterMap_append, List.filterMap_cons, undeclared]
      simp
    have withdrawals : (records ++ [record]).filterMap withdrawnLink =
        records.filterMap withdrawnLink := by
      rw [List.filterMap_append, List.filterMap_cons, kept]
      simp
    exact {
      head := fun page => by rw [head, chain_congr chain, sound.head]
      chain := fun page => by rw [chain_congr chain, sound.chain, same]
      seen := by
        rw [declarations]
        exact fun declared member => grown (sound.seen declared member)
      distinct := declarations ▸ sound.distinct
      dead := by
        rw [withdrawals, declarations]
        intro target taken
        refine ⟨(sound.dead target taken).1, fun page => ?_⟩
        rw [same]
        exact (sound.dead target taken).2 page
      once := withdrawals ▸ sound.once
      chained := fun page => same page ▸ sound.chained page
      corresponds := correspondences }
  · have live := @liveLinks_declared rules records record declared declares kept
    have declarations : (records ++ [record]).filterMap (declaredOf rules) =
        records.filterMap (declaredOf rules) ++ [declared] := by
      rw [List.filterMap_append, List.filterMap_cons, declares]
      rfl
    have withdrawals : (records ++ [record]).filterMap withdrawnLink =
        records.filterMap withdrawnLink := by
      rw [List.filterMap_append, List.filterMap_cons, kept]
      simp
    have unknown : declared.link.digest ∉
        (records.filterMap (declaredOf rules)).map fun declared => declared.link.digest := by
      intro inside
      obtain ⟨other, member, same⟩ := List.mem_map.mp inside
      exact fresh (same ▸ sound.seen other member)
    have succession : Chained (liveLinks rules declared.page records ++ [declared]) := by
      refine (sound.chained declared.page).push (fun empty => ?_) fun last newest => ?_
      · apply succession_first follows
        rw [sound.head, sound.chain, empty]
        rfl
      · have prior : reading.membershipHead.get? declared.page = some last.link := by
          rw [sound.head, sound.chain, List.getLast?_map, newest]
          rfl
        exact succession_later follows prior
    exact {
      head := by
        intro page
        rw [head, chain_congr chain, Reading.linked_head, Reading.linked_chain]
        split
        · rw [List.getLast?_concat]
        · exact sound.head page
      chain := by
        intro page
        rw [chain_congr chain, Reading.linked_chain, live, List.map_append]
        by_cases same : page = declared.page
        · subst same
          simp [sound.chain]
        · simp [same, Ne.symm same, sound.chain]
      seen := by
        rw [declarations, List.forall_mem_append, List.forall_mem_singleton]
        exact ⟨fun declared member => grown (sound.seen declared member), seen⟩
      distinct := by
        rw [declarations, List.map_append, List.map_singleton, List.nodup_append]
        refine ⟨sound.distinct, List.nodup_singleton _, ?_⟩
        rintro digest inside other last rfl
        exact unknown (List.mem_singleton.mp last ▸ inside)
      dead := by
        rw [withdrawals, declarations]
        intro target taken
        obtain ⟨known, gone⟩ := sound.dead target taken
        refine ⟨?_, fun page other alive => ?_⟩
        · rw [List.map_append]
          exact List.mem_append_left _ known
        · rw [live, List.mem_append] at alive
          rcases alive with alive | own
          · exact gone page other alive
          · rintro rfl
            split at own
            · rw [List.mem_singleton.mp own] at known
              exact unknown known
            · cases own
      once := withdrawals ▸ sound.once
      chained := by
        intro page
        rw [live]
        split
        · next same => exact same ▸ succession
        · rw [List.append_nil]
          exact sound.chained page
      corresponds := correspondences }
  · obtain ⟨move, makes, -, -, pops⟩ := liveLinks_moves sound done
    obtain ⟨name, last, rfl, digest⟩ := pops target takes
    obtain ⟨shape, others⟩ := makes
    beta_reduce at shape others
    have declarations : (records ++ [record]).filterMap (declaredOf rules) =
        records.filterMap (declaredOf rules) := by
      rw [List.filterMap_append, List.filterMap_cons, undeclared]
      simp
    have withdrawals : (records ++ [record]).filterMap withdrawnLink =
        records.filterMap withdrawnLink ++ [target] := by
      rw [List.filterMap_append, List.filterMap_cons, takes]
      rfl
    have alive : last ∈ liveLinks rules name records := by
      rw [shape]
      exact List.mem_append_right _ (.head _)
    obtain rfl : page = name := by
      obtain ⟨newest, atHead, same⟩ := sound.newest_of_headed headed
      have inside := List.mem_of_getLast? atHead
      have one := sound.declared_unique (declared_of_live inside) (declared_of_live alive)
        (same.trans digest.symm)
      rw [← page_of_live inside, one]
      exact page_of_live alive
    exact {
      head := by
        intro other
        rw [head, chain_congr chain, Reading.unlinked_head, Reading.unlinked_chain]
        split
        · rfl
        · exact sound.head other
      chain := by
        intro other
        rw [chain_congr chain, Reading.unlinked_chain]
        split
        · next same =>
          rw [same, sound.chain, shape, List.map_append, List.map_singleton, List.dropLast_concat]
        · next apart => rw [sound.chain, others other apart]
      seen := by
        rw [declarations]
        exact fun declared member => grown (sound.seen declared member)
      distinct := declarations ▸ sound.distinct
      dead := by
        rw [withdrawals, declarations, List.forall_mem_append, List.forall_mem_singleton]
        have kept (page : Str) (declared : Declared)
            (still : declared ∈ liveLinks rules page (records ++ [record])) :
            declared ∈ liveLinks rules page records ∧ declared.link.digest ≠ target := by
          rw [liveLinks_withdrawn undeclared takes, List.mem_filter, decide_eq_true_eq] at still
          exact still
        refine ⟨fun other taken => ⟨(sound.dead other taken).1, fun page declared still =>
          (sound.dead other taken).2 page declared (kept page declared still).1⟩, ?_,
          fun page declared still => (kept page declared still).2⟩
        exact digest ▸ List.mem_map_of_mem (declared_of_live alive)
      once := by
        rw [withdrawals, List.nodup_append]
        refine ⟨sound.once, List.nodup_singleton _, ?_⟩
        rintro other taken _ own rfl
        rw [List.mem_singleton.mp own] at taken
        exact (sound.dead target taken).2 page last alive digest
      chained := by
        intro other
        by_cases same : other = page
        · subst same
          have before := sound.chained other
          rw [shape] at before
          exact before.pop
        · rw [others other same]
          exact sound.chained other
      corresponds := correspondences }

/-- The reading of every list of records that is accepted is sound. -/
theorem replay_sound (done : replay rules records = .ok reading) : Sound rules records reading := by
  induction records using List.reverseRecOn generalizing reading with
  | nil =>
      cases done
      exact Reading.start_sound
  | append_singleton records record ih =>
      rw [replay, List.foldlM_append] at done
      obtain ⟨earlier, first, done⟩ := bind_eq_ok.mp done
      rw [List.foldlM_cons] at done
      obtain ⟨last, step, done⟩ := bind_eq_ok.mp done
      cases done
      exact (ih first).step step

end Invariant

end Verbatus.Register
