import MQTTv1.Broker.Admission

/-!
# Capacity of the arrays

Nothing compares `fd_idx` with the length of the arrays, and both scans rely on
a NULL behind the last row.  In every run in which no registration stores its
name in the last slot, all stores and both scans stay inside; a full table has
no NULL left.  A scan that comes while a row is half stored takes it for a row
already.
-/

namespace MQTTv1
namespace Broker

open CLib
open Csapp

/-- The column has entries up to `stop` and NULL there, inside the array. -/
structure Terminated (column : Nat -> Option CStr) (stop : Nat) : Prop where
  before : forall i, i < stop -> column i ≠ none
  null : column stop = none
  inside : stop < LIMIT_CONN_CLIENTS

/-- Where a scan ends: an entry that has been stored is seen before it counts. -/
def columnEnd (column : Nat -> Option CStr) (fdIdx : Nat) : Nat :=
  if (column fdIdx).isSome then fdIdx + 1 else fdIdx

def Tables.nameEnd (t : Tables) : Nat := columnEnd t.clientNameList t.fdIdx

def Tables.susEnd (t : Tables) : Nat := columnEnd t.clientSusList t.fdIdx

/-- The row that a forwarder tests is at most the end, the one it serves is before. -/
def Point.AtRow (p : Point) (rowEnd : Nat) : Prop :=
  match p with
  | .testRow i => i ≤ rowEnd
  | .testNone i | .loadPublisher i | .loadSuscriber i | .loadTopic i _
  | .findPublisher i | .findSuscriber i | .readLine i | .write i => i < rowEnd
  | _ => True

def Point.rowIndex : Point -> Option Nat
  | .testRow i | .testNone i | .loadPublisher i | .loadSuscriber i
  | .loadTopic i _ | .findPublisher i | .findSuscriber i | .readLine i
  | .write i => some i
  | _ => none

def Point.searches : Point -> Bool
  | .findPublisher _ | .findSuscriber _ => true
  | _ => false

/-- The accesses to the arrays that a thread makes in its next step. -/
structure StepInside (t : Tables) (th : Thread) : Prop where
  /-- The stores of a registration are at `fd_idx`. -/
  stores : 1 ≤ th.stage -> th.stage ≤ 13 -> t.fdIdx < LIMIT_CONN_CLIENTS
  row : forall i, th.point.rowIndex = some i -> i < LIMIT_CONN_CLIENTS
  /-- The row loop comes to its end at `fd_idx`. -/
  rowEnd : forall i, th.point = .testRow i ->
    (t.clientSusList i = none <-> i = t.fdIdx)
  /-- A search that does not find the name has come to `fd_idx`. -/
  searchEnd : th.point.searches = true -> Terminated t.clientNameList t.fdIdx
  search : forall name, th.point.searches = true ->
    (exists i, i < t.fdIdx ∧ findIndexByClientName t name = .found i) ∨
      findIndexByClientName t name = .notFound

/-- A registration that has passed stage `n` and not yet `fd_idx += 1`. -/
def System.halfStored (s : System) (n : Nat) : Bool :=
  s.threads.any fun th => decide (n < th.stage) && decide (th.stage ≤ 13)

/--
No registration stores its name in the last slot, and no column is scanned
between the store of an entry in it and `fd_idx += 1`.
-/
def System.wellTimed (s : System) (t : Nat) : Bool :=
  (s.threads[t]?).all fun th =>
    match th.point with
    | .storeName => decide (s.shared.tables.fdIdx + 1 < LIMIT_CONN_CLIENTS)
    | .testRow _ => !s.halfStored Point.storeSus.stage
    | .findPublisher _ | .findSuscriber _ =>
        !s.halfStored Point.storeName.stage
    | _ => true

def StrayEvent.runner : StrayEvent -> Option Nat
  | .event (.run t _) => some t
  | .stray t _ => some t
  | _ => none

def System.timed (s : System) (e : StrayEvent) : Bool :=
  e.runner.all s.wellTimed

/-!
# Scans
-/

theorem findFrom_terminated {names : Nat -> Option CStr} {stop : Nat}
    (hstop : names stop = none) (name : CStr) :
    forall {slots i : Nat}, i ≤ stop -> stop < i + slots ->
      (exists j, j < stop ∧ findFrom names name slots i = .found j) ∨
        findFrom names name slots i = .notFound := by
  intro slots
  induction slots with
  | zero =>
      intro i hle hlt
      lia
  | succ slots ih =>
      intro i hle hlt
      unfold findFrom
      cases hentry : names i with
      | none => exact Or.inr rfl
      | some other =>
          have hbefore : i < stop := by
            apply Nat.lt_of_le_of_ne hle
            intro heq
            rw [heq, hstop] at hentry
            cases hentry
          simp only
          split
          · exact Or.inl ⟨i, hbefore, rfl⟩
          · exact ih (by lia) (by lia)

theorem columnEnd_of_none {column : Nat -> Option CStr} {fdIdx : Nat}
    (h : column fdIdx = none) : columnEnd column fdIdx = fdIdx := by
  simp [columnEnd, h]

theorem le_columnEnd (column : Nat -> Option CStr) (fdIdx : Nat) :
    fdIdx ≤ columnEnd column fdIdx := by
  unfold columnEnd
  split <;> lia

theorem OwnerOf.visible {s : System} {n i : Nat} {row : Row}
    (hs : Registering s) (hn : 2 ≤ n) (howner : OwnerOf s.threads n i row) :
    i < s.shared.tables.fdIdx ∨
      (i = s.shared.tables.fdIdx ∧
        exists (u : Nat) (owner : Thread), s.threads[u]? = some owner ∧
          n ≤ owner.stage ∧ owner.stage ≤ 13) := by
  rcases howner with ⟨u, owner, hu, rfl, hstage, _⟩
  have hplaced := hs.placed u owner hu
  rcases Nat.lt_or_ge owner.stage 14 with hearly | hlate
  · exact Or.inr ⟨hplaced.next (by lia) (by lia), u, owner, hu, hstage, by lia⟩
  · exact Or.inl (hplaced.below hlate)

/-!
# Every run
-/

structure Spacious (s : System) : Prop where
  registering : Registering s
  few : s.shared.tables.fdIdx < LIMIT_CONN_CLIENTS
  room : forall (t : Nat) th, s.threads[t]? = some th -> 5 ≤ th.stage ->
    th.stage ≤ 13 -> s.shared.tables.fdIdx + 1 < LIMIT_CONN_CLIENTS
  rows : forall (t : Nat) th, s.threads[t]? = some th ->
    th.point.AtRow s.shared.tables.susEnd

theorem spacious_initial : Spacious System.initial where
  registering := registering_initial
  few := by decide
  room := by
    intro t th hth
    simp [System.initial] at hth
  rows := by
    intro t th hth
    simp [System.initial] at hth

section

variable {s s' : System} {t : Nat} {th th' : Thread}

/-- A column of which every entry has an owner ends with NULL in the array. -/
theorem Spacious.terminated (hs : Spacious s) {column : Nat -> Option CStr}
    (hbelow : forall i, i < s.shared.tables.fdIdx -> column i ≠ none)
    (howned : forall i entry, column i = some entry ->
      exists row, OwnerOf s.threads 5 i row) :
    Terminated column (columnEnd column s.shared.tables.fdIdx) := by
  cases hnext : column s.shared.tables.fdIdx with
  | none =>
      rw [columnEnd_of_none hnext]
      exact ⟨hbelow, hnext, hs.few⟩
  | some entry =>
      have hend : columnEnd column s.shared.tables.fdIdx =
          s.shared.tables.fdIdx + 1 := by
        simp [columnEnd, hnext]
      rw [hend]
      constructor
      · intro i hi
        rcases Nat.lt_or_ge i s.shared.tables.fdIdx with hlt | hge
        · exact hbelow i hlt
        · rw [Nat.le_antisymm (by lia) hge, hnext]
          exact Option.some_ne_none entry
      · cases hbehind : column (s.shared.tables.fdIdx + 1) with
        | none => rfl
        | some other =>
            rcases howned _ other hbehind with ⟨row, howner⟩
            rcases howner.visible hs.registering (by lia) with hlt | ⟨heq, _⟩
            · lia
            · lia
      · rcases howned _ entry hnext with ⟨row, howner⟩
        rcases howner.visible hs.registering (by lia) with
          hlt | ⟨_, u, owner, hu, hstage, hstage'⟩
        · lia
        · exact hs.room u owner hu hstage hstage'

theorem OwnerOf.mono {threads : List Thread} {n m i : Nat} {row : Row}
    (hle : m ≤ n) (h : OwnerOf threads n i row) : OwnerOf threads m i row := by
  rcases h with ⟨u, owner, hu, hrow, hstage, hreg⟩
  exact ⟨u, owner, hu, hrow, by lia, hreg⟩

theorem Spacious.names (hs : Spacious s) :
    Terminated s.shared.tables.clientNameList s.shared.tables.nameEnd := by
  apply hs.terminated
  · intro i hi
    rcases hs.registering.passed i hi with ⟨row, howner⟩
    rw [(howner.tables hs.registering (by lia)).left]
    exact Option.some_ne_none _
  · exact hs.registering.named

theorem Spacious.subscriptions (hs : Spacious s) :
    Terminated s.shared.tables.clientSusList s.shared.tables.susEnd := by
  apply hs.terminated
  · intro i hi
    rcases hs.registering.passed i hi with ⟨row, howner⟩
    rw [(howner.tables hs.registering (by lia)).right.right]
    exact Option.some_ne_none _
  · intro i sus hsus
    exact (hs.registering.owned i sus hsus).imp fun _ howner =>
      howner.mono (by lia)

/-!
## Registrations
-/

theorem Thread.Registers.fdIdx_cases {s s' : Shared}
    (h : th.Registers s th' s') :
    s'.tables.fdIdx = s.tables.fdIdx ∨
      (th.stage = 13 ∧ th'.stage = 14 ∧
        s'.tables.fdIdx = s.tables.fdIdx + 1) := by
  cases h with
  | advance hpoint =>
      right
      simp [Thread.stage, hpoint, Tables.advance]
  | readName hpoint line _ hline | readSus hpoint line _ hline =>
      rw [(takeLine_keeps hline).left]
      exact Or.inl rfl
  | postControl hpoint =>
      left
      split
      · rfl
      · rfl
  | _ => exact Or.inl rfl

theorem Thread.Registers.stores_name {s s' : Shared}
    (h : th.Registers s th' s') (hearly : th.stage < 5)
    (hlate : 5 ≤ th'.stage) : th.point = .storeName := by
  cases h with
  | storeName hpoint => exact hpoint
  | storeTopic k hpoint | topicsDone k hpoint =>
      simp only [Thread.stage, hpoint, Point.stage] at hearly
      lia
  | waitMutex hpoint | storeFd hpoint | readName hpoint | readSus hpoint
  | storeNone hpoint | storeSus hpoint | advance hpoint | postControl hpoint
  | postMutex hpoint => simp_all [Thread.stage]

theorem Thread.Registers.susEnd_le {s s' : Shared}
    (h : th.Registers s th' s') : s.tables.susEnd ≤ s'.tables.susEnd := by
  unfold Tables.susEnd
  cases h with
  | storeNone hpoint | storeSus hpoint =>
      have hend : columnEnd (Function.update s.tables.clientSusList
            s.tables.fdIdx (some (subscribedNode th.bufSusInfo th.left)))
          s.tables.fdIdx = s.tables.fdIdx + 1 := by
        simp [columnEnd]
      show _ ≤ columnEnd (Function.update _ _ _) s.tables.fdIdx
      rw [hend]
      unfold columnEnd
      split <;> lia
  | advance hpoint =>
      have hle := le_columnEnd s.tables.clientSusList (s.tables.fdIdx + 1)
      show _ ≤ columnEnd s.tables.clientSusList (s.tables.fdIdx + 1)
      apply Nat.le_trans _ hle
      unfold columnEnd
      split <;> lia
  | readName hpoint line _ hline | readSus hpoint line _ hline =>
      rw [(takeLine_keeps hline).left]
  | postControl hpoint =>
      split
      · exact Nat.le_refl _
      · exact Nat.le_refl _
  | waitMutex hpoint | storeFd hpoint | storeName hpoint | storeTopic k hpoint
  | topicsDone k hpoint | postMutex hpoint => exact Nat.le_refl _

theorem Thread.Registers.atRow {s s' : Shared} (h : th.Registers s th' s')
    (rowEnd : Nat) : th'.point.AtRow rowEnd := by
  cases h <;> trivial

theorem Point.AtRow.mono {p : Point} {rowEnd rowEnd' : Nat}
    (h : p.AtRow rowEnd) (hle : rowEnd ≤ rowEnd') : p.AtRow rowEnd' := by
  unfold Point.AtRow at h ⊢
  cases p with
  | testRow i => exact Nat.le_trans h hle
  | testNone i | loadPublisher i | loadSuscriber i | loadTopic i j
  | findPublisher i | findSuscriber i | readLine i | write i =>
      exact Nat.lt_of_lt_of_le h hle
  | _ => trivial

theorem Spacious.of_registers (hs : Spacious s)
    (hth : s.threads[t]? = some th)
    (h : th.Registers s.shared th' s'.shared)
    (hroom : th.point = .storeName ->
      s.shared.tables.fdIdx + 1 < LIMIT_CONN_CLIENTS)
    (hthreads : s'.threads = s.threads.set t th') : Spacious s' where
  registering := hs.registering.of_registers hth h hthreads
  few := by
    rcases h.fdIdx_cases with heq | ⟨hstage, _, heq⟩
    · rw [heq]
      exact hs.few
    · rw [heq]
      exact hs.room t th hth (by lia) (by lia)
  room := by
    intro u other hother hlow hhigh
    rw [hthreads] at hother
    rcases getElem?_set_cases hth hother with ⟨_, rfl⟩ | ⟨hut, hold⟩
    · rcases h.fdIdx_cases with heq | ⟨_, hstage, _⟩
      · rw [heq]
        rcases Nat.lt_or_ge th.stage 5 with hearly | hlate
        · exact hroom (h.stores_name hearly hlow)
        · have hle := h.stage_le.right
          exact hs.room t th hth hlate (by lia)
      · lia
    · have hout := hs.registering.outside hth h hold hut
      unfold Thread.InSection at hout
      lia
  rows := by
    intro u other hother
    rw [hthreads] at hother
    rcases getElem?_set_cases hth hother with ⟨_, rfl⟩ | ⟨_, hold⟩
    · exact h.atRow _
    · exact (hs.rows u other hold).mono h.susEnd_le

/-!
## Forwarders
-/

theorem Thread.Forwards.atRow {left : MessageLeftover} {s s' : Shared}
    {rowEnd : Nat} (h : th.Forwards left s th' s')
    (hnull : s.tables.clientSusList rowEnd = none)
    (hat : th.point.AtRow rowEnd) : th'.point.AtRow rowEnd := by
  cases h with
  | waitControl hpoint | passOver i hpoint => exact Nat.zero_le _
  | rowFound i sus hpoint hsus =>
      rw [hpoint] at hat
      apply Nat.lt_of_le_of_ne hat
      intro heq
      rw [heq, hnull] at hsus
      cases hsus
  | readLine i line _ hpoint hline =>
      rw [hpoint] at hat
      cases line with
      | none => exact hat
      | some bytes => exact hat
  | rowNone i sus hpoint | rowSubscribed i sus hpoint
  | loadPublisher i sus hpoint | loadSuscriber i hpoint | loadTopic i j hpoint
  | topicsLoaded i j hpoint | findPublisher i fd hpoint
  | findSuscriber i name fd hpoint | written i hpoint
  | write i buf rest hpoint =>
      rw [hpoint] at hat
      exact hat

theorem Thread.stepStray_atRow {found : Stray} {s s' : Shared} {rowEnd : Nat}
    (h : th.stepStray found s = some (th', s'))
    (hinside : rowEnd < LIMIT_CONN_CLIENTS) (hat : th.point.AtRow rowEnd) :
    th'.point.AtRow rowEnd := by
  unfold Thread.stepStray at h
  cases hpoint : th.point with
  | testRow i | testNone i | loadPublisher i | loadSuscriber i =>
      rw [hpoint] at hat
      have hi : i < LIMIT_CONN_CLIENTS := by
        unfold Point.AtRow at hat
        lia
      simp only [hpoint, if_pos hi] at h
      cases h
  | loadTopic i j =>
      rw [hpoint] at hat
      have hi : i < LIMIT_CONN_CLIENTS := by
        unfold Point.AtRow at hat
        lia
      simp only [hpoint, if_pos (Or.inl hi)] at h
      cases h
  | findPublisher i =>
      rw [hpoint] at hat
      simp only [hpoint] at h
      split at h
      · cases h
      · cases h
        exact hat
  | findSuscriber i =>
      rw [hpoint] at hat
      simp only [hpoint] at h
      rcases Option.bind_eq_some_iff.mp h with ⟨name, _, hfind⟩
      split at hfind
      · cases hfind
      · cases hfind
        exact hat
  | _ =>
      simp only [hpoint] at h
      cases h

theorem Spacious.of_keeps (hs : Spacious s) (hth : s.threads[t]? = some th)
    (hkeeps : th.Keeps th') (hat : th'.point.AtRow s.shared.tables.susEnd)
    (htables : s'.shared.tables = s.shared.tables)
    (hmutex : s'.shared.semMutex = s.shared.semMutex)
    (hthreads : s'.threads = s.threads.set t th') : Spacious s' where
  registering := hs.registering.of_keeps hth hkeeps htables hmutex hthreads
  few := by
    rw [htables]
    exact hs.few
  room := by
    intro u other hother hlow hhigh
    rw [htables]
    rw [hthreads] at hother
    rcases getElem?_set_cases hth hother with ⟨_, rfl⟩ | ⟨_, hold⟩
    · rw [hkeeps.stage.right] at hhigh
      lia
    · exact hs.room u other hold hlow hhigh
  rows := by
    intro u other hother
    rw [htables]
    rw [hthreads] at hother
    rcases getElem?_set_cases hth hother with ⟨_, rfl⟩ | ⟨_, hold⟩
    · exact hat
    · exact hs.rows u other hold

theorem Spacious.of_accept (hs : Spacious s) {connfd : Fd} {left : Leftover}
    (hshared : s'.shared = s.shared)
    (hthreads : s'.threads = s.threads ++ [Thread.start connfd left]) :
    Spacious s' where
  registering := hs.registering.of_accept hshared hthreads
  few := by
    rw [hshared]
    exact hs.few
  room := by
    intro u other hother hlow hhigh
    rw [hshared]
    rw [hthreads] at hother
    exact hs.room u other (getElem?_of_started hother (by lia)) hlow hhigh
  rows := by
    intro u other hother
    rw [hshared]
    rw [hthreads] at hother
    rcases getElem?_append_cases hother with ⟨_, rfl⟩ | hold
    · trivial
    · exact hs.rows u other hold

theorem Spacious.step (hs : Spacious s) {e : StrayEvent}
    (htimed : s.timed e = true) (hstep : s.stepStray e = some s') :
    Spacious s' := by
  cases e with
  | stray t found =>
      rcases System.stepStray_thread hstep with ⟨th, th', hth, hstray, hthreads⟩
      rcases Thread.stepStray_cases hstray with ⟨hshared, hwanders⟩
      have hat := Thread.stepStray_atRow hstray hs.subscriptions.inside
        (hs.rows t th hth)
      exact hs.of_keeps hth hwanders.keeps hat (congrArg Shared.tables hshared)
        (congrArg Shared.semMutex hshared) hthreads
  | event e =>
      change s.step e = some s' at hstep
      cases e with
      | accept connfd left =>
          change (if _ then none else some _) = some s' at hstep
          split at hstep
          · cases hstep
          · cases hstep
            exact hs.of_accept rfl rfl
      | arrive fd line | hangUp fd =>
          have hregistering := hs.registering.step hstep
          cases hstep
          exact ⟨hregistering, hs.few, hs.room, hs.rows⟩
      | run t left =>
          rcases System.step_run hstep with ⟨th, th', hth, hrun, hthreads⟩
          rcases Thread.step_moves hrun with hmove | hmove
          · apply hs.of_registers hth hmove _ hthreads
            intro hpoint
            simpa [System.timed, StrayEvent.runner, System.wellTimed, hth,
              hpoint] using htimed
          · rcases hmove.keeps with ⟨hkeeps, htables, hmutex⟩
            have hat := hmove.atRow hs.subscriptions.null (hs.rows t th hth)
            exact hs.of_keeps hth hkeeps hat htables hmutex hthreads

/-!
# Capacity
-/

theorem columnEnd_eq (hs : Registering s) {column : Nat -> Option CStr}
    {n : Nat} (hn : 1 ≤ n)
    (howned : forall i entry, column i = some entry ->
      exists row, OwnerOf s.threads (n + 1) i row)
    (hwhole : s.halfStored n = false) :
    columnEnd column s.shared.tables.fdIdx = s.shared.tables.fdIdx := by
  cases hnext : column s.shared.tables.fdIdx with
  | none => exact columnEnd_of_none hnext
  | some entry =>
      rcases howned _ entry hnext with ⟨row, howner⟩
      rcases howner.visible hs (by lia) with
        hlt | ⟨_, u, owner, hu, hstage, hstage'⟩
      · lia
      · have hhalf : s.halfStored n = true := by
          apply List.any_eq_true.mpr
          refine ⟨owner, List.mem_of_getElem? hu, ?_⟩
          rw [Bool.and_eq_true, decide_eq_true_eq, decide_eq_true_eq]
          exact ⟨hstage, hstage'⟩
        rw [hhalf] at hwhole
        cases hwhole

theorem Spacious.susEnd_eq (hs : Spacious s)
    (hwhole : s.halfStored Point.storeSus.stage = false) :
    s.shared.tables.susEnd = s.shared.tables.fdIdx :=
  columnEnd_eq hs.registering (by decide) hs.registering.owned hwhole

theorem Spacious.nameEnd_eq (hs : Spacious s)
    (hwhole : s.halfStored Point.storeName.stage = false) :
    s.shared.tables.nameEnd = s.shared.tables.fdIdx :=
  columnEnd_eq hs.registering (by decide) hs.registering.named hwhole

theorem Point.AtRow.rowIndex_le {p : Point} {rowEnd i : Nat}
    (h : p.AtRow rowEnd) (hrow : p.rowIndex = some i) : i ≤ rowEnd := by
  unfold Point.AtRow at h
  cases p with
  | testRow k =>
      cases hrow
      exact h
  | testNone k | loadPublisher k | loadSuscriber k | loadTopic k j
  | findPublisher k | findSuscriber k | readLine k | write k =>
      cases hrow
      exact Nat.le_of_lt h
  | _ => cases hrow

theorem Spacious.searchEnd (hs : Spacious s) (hth : s.threads[t]? = some th)
    (htimed : s.wellTimed t = true) (hsearches : th.point.searches = true) :
    Terminated s.shared.tables.clientNameList s.shared.tables.fdIdx := by
  have hwhole : s.halfStored Point.storeName.stage = false := by
    unfold System.wellTimed at htimed
    rw [hth] at htimed
    cases hpoint : th.point with
    | findPublisher i | findSuscriber i =>
        simpa [hpoint] using htimed
    | _ =>
        rw [hpoint] at hsearches
        cases hsearches
  rw [← hs.nameEnd_eq hwhole]
  exact hs.names

theorem Spacious.rowEnd (hs : Spacious s) (hth : s.threads[t]? = some th)
    (htimed : s.wellTimed t = true) {i : Nat} (hpoint : th.point = .testRow i) :
    s.shared.tables.clientSusList i = none <->
      i = s.shared.tables.fdIdx := by
  have hwhole : s.halfStored Point.storeSus.stage = false := by
    simpa [System.wellTimed, hth, hpoint] using htimed
  have hend := hs.susEnd_eq hwhole
  have hat := hs.rows t th hth
  rw [hpoint, hend] at hat
  have hterminated := hs.subscriptions
  rw [hend] at hterminated
  constructor
  · intro hnull
    apply Nat.le_antisymm hat
    apply Nat.le_of_not_lt
    intro hlt
    exact hterminated.before i hlt hnull
  · intro heq
    rw [heq]
    exact hterminated.null

theorem Spacious.stepInside (hs : Spacious s) (hth : s.threads[t]? = some th)
    (htimed : s.wellTimed t = true) : StepInside s.shared.tables th where
  stores := fun _ _ => hs.few
  row := by
    intro i hrow
    have hle := (hs.rows t th hth).rowIndex_le hrow
    exact Nat.lt_of_le_of_lt hle hs.subscriptions.inside
  rowEnd := fun _ hpoint => hs.rowEnd hth htimed hpoint
  searchEnd := hs.searchEnd hth htimed
  search := by
    intro name hsearches
    have hnames := hs.searchEnd hth htimed hsearches
    exact findFrom_terminated hnames.null name (Nat.zero_le _)
      (by have := hnames.inside; lia)

end

/--
However many clients connect, in a well timed run no access leaves the arrays
and every scan stops at `fd_idx`.
-/
theorem within_arrays_of_free_slot {s : System}
    (hreach : Reachable (guarded System.timed System.stepStray)
      System.initial s) {t : Nat} {th : Thread}
    (hth : s.threads[t]? = some th) (htimed : s.wellTimed t = true) :
    StepInside s.shared.tables th := by
  have hs : Spacious s := by
    apply hreach.invariant spacious_initial
    intro s e s' hs hstep
    rcases guarded_eq_some.mp hstep with ⟨htimed, hrun⟩
    exact hs.step htimed hrun
  exact hs.stepInside hth htimed

/-!
# The full table
-/

/-- The last slot is free, and a forwarder has come to it. -/
theorem nine_clients_within :
    exists s th, Reachable (guarded System.timed System.stepStray)
        System.initial s ∧
      s.shared.tables.fdIdx + 1 = LIMIT_CONN_CLIENTS ∧
      s.threads[0]? = some th ∧ th.point = .testRow 9 ∧
      StepInside s.shared.tables th := by
  have hrun :
      (runFrom (guarded System.timed System.stepStray) System.initial
          ((registrations 9 ++ runs 0 19).map .event)).map
        (fun s => (s.shared.tables.fdIdx, (s.threads[0]?).map Thread.point,
          s.wellTimed 0)) =
      some (9, some (.testRow 9), true) := by
    decide +kernel
  rcases Option.map_eq_some_iff.mp hrun with ⟨s, hs, hview⟩
  simp only [Prod.mk.injEq] at hview
  rcases hview with ⟨hrows, hforwarder, htimed⟩
  rcases Option.map_eq_some_iff.mp hforwarder with ⟨th, hth, hpoint⟩
  refine ⟨s, th, ⟨_, hs⟩, by rw [hrows]; rfl, hth, hpoint, ?_⟩
  exact within_arrays_of_free_slot ⟨_, hs⟩ hth htimed

/--
Ten clients have registered, one after the other.  A forwarder reads
`client_sus_list[10]`, a search for a name that nobody has leaves its array, and
the next client registers at index 10.
-/
theorem ten_clients_overrun :
    exists s forwarder client, Reachable System.step System.initial s ∧
      s.shared.tables.fdIdx = LIMIT_CONN_CLIENTS ∧
      s.threads[0]? = some forwarder ∧
      forwarder.point = .testRow LIMIT_CONN_CLIENTS ∧
      s.threads[10]? = some client ∧ client.point = .storeFd ∧
      findIndexByClientName s.shared.tables (lit "other") = .overrun ∧
      ¬ StepInside s.shared.tables forwarder ∧
      ¬ StepInside s.shared.tables client := by
  have hrun :
      (runFrom System.step System.initial
          (registrations 10 ++ runs 0 21 ++
            connects 10 (lit "node") (lit "NONE") ++ runs 10 1)).map
        (fun s => (s.shared.tables.fdIdx, (s.threads[0]?).map Thread.point,
          (s.threads[10]?).map Thread.point,
          findIndexByClientName s.shared.tables (lit "other"))) =
      some (10, some (.testRow 10), some .storeFd, .overrun) := by
    decide +kernel
  rcases Option.map_eq_some_iff.mp hrun with ⟨s, hs, hview⟩
  simp only [Prod.mk.injEq] at hview
  rcases hview with ⟨hrows, hforwarder, hclient, hsearch⟩
  rcases Option.map_eq_some_iff.mp hforwarder with ⟨forwarder, hth, hpoint⟩
  rcases Option.map_eq_some_iff.mp hclient with ⟨client, hth', hpoint'⟩
  refine ⟨s, forwarder, client, ⟨_, hs⟩, hrows, hth, hpoint, hth', hpoint',
    hsearch, ?_, ?_⟩
  · intro hinside
    have hlt := hinside.row LIMIT_CONN_CLIENTS (by rw [hpoint]; rfl)
    exact Nat.lt_irrefl _ hlt
  · intro hinside
    have hlt := hinside.stores (by simp [Thread.stage, hpoint'])
      (by simp [Thread.stage, hpoint'])
    rw [hrows] at hlt
    exact Nat.lt_irrefl _ hlt

end Broker
end MQTTv1
