import MQTTv1.Broker.Rows
import MQTTv1.Broker.Threads

/-!
# Rows under registration

The mutex keeps registrations apart, and each fills the row at the counter, store
by store.  What follows holds in every reachable state, whatever the forwarders
do meanwhile.
-/

namespace MQTTv1
namespace Broker

open CLib
open Csapp

/-!
# Stages of a registration
-/

/-- How far the registration of a thread has come. -/
@[simp] def Point.stage : Point -> Nat
  | .waitMutex => 0
  | .storeFd => 1
  | .readName => 2
  | .readSus => 3
  | .storeName => 4
  | .storeSus => 5
  | .storeTopic k => 6 + min k 6
  | .advance => 13
  | .postControl => 14
  | .postMutex => 15
  | _ => 16

def Thread.stage (th : Thread) : Nat := th.point.stage

def Thread.InSection (th : Thread) : Prop := 1 ≤ th.stage ∧ th.stage ≤ 15

def Thread.registration (th : Thread) : Row :=
  registeredRow th.connfd th.bufNodeName th.bufSusInfo th.left

structure SameRow (t t' : Tables) (i : Nat) : Prop where
  fd : t'.clientFdList i = t.clientFdList i
  name : t'.clientNameList i = t.clientNameList i
  sus : t'.clientSusList i = t.clientSusList i
  topics : t'.topicList i = t.topicList i

theorem SameRow.refl (t : Tables) (i : Nat) : SameRow t t i :=
  ⟨rfl, rfl, rfl, rfl⟩

/-- What a thread has stored so far, at the row that it was given. -/
structure Thread.Stored (th : Thread) (t : Tables) : Prop where
  fd : 2 ≤ th.stage -> t.clientFdList th.row = th.connfd
  name : 5 ≤ th.stage -> t.clientNameList th.row = some th.bufNodeName
  sus : 6 ≤ th.stage ->
    t.clientSusList th.row = some (subscribedNode th.bufSusInfo th.left)
  mask : 6 ≤ th.stage -> isNone th.bufSusInfo = false ->
    th.subscribedInfo = subscribedMask th.bufSusInfo th.left
  topics : forall j, 6 + j < th.stage -> j < TOPICS_NUMBER ->
    isNone th.bufSusInfo = false ->
      t.topicList th.row j = th.subscribedInfo j

/-- The row of a thread is the next one until its registration is over. -/
structure Thread.Placed (th : Thread) (fdIdx : Nat) : Prop where
  next : 2 ≤ th.stage -> th.stage ≤ 13 -> th.row = fdIdx
  below : 14 ≤ th.stage -> th.row < fdIdx

theorem Thread.Stored.of_sameRow {th : Thread} {t t' : Tables}
    (h : th.Stored t) (hrow : 2 ≤ th.stage -> SameRow t t' th.row) :
    th.Stored t' := by
  constructor
  · intro hstage
    rw [(hrow hstage).fd]
    exact h.fd hstage
  · intro hstage
    rw [(hrow (by lia)).name]
    exact h.name hstage
  · intro hstage
    rw [(hrow (by lia)).sus]
    exact h.sus hstage
  · exact h.mask
  · intro j hstage hj hnone
    rw [(hrow (by lia)).topics]
    exact h.topics j hstage hj hnone

/-!
# One step of a registration
-/

section

variable {th th' : Thread} {s s' : Shared}

/-- A step of a registration stores in the next row only. -/
theorem Thread.Registers.sameRow (h : th.Registers s th' s') {i : Nat}
    (hi : i ≠ s.tables.fdIdx) : SameRow s.tables s'.tables i := by
  cases h with
  | storeFd hpoint hroom =>
      exact ⟨Function.update_of_ne hi _ _, rfl, rfl, rfl⟩
  | storeName hpoint =>
      exact ⟨rfl, Function.update_of_ne hi _ _, rfl, rfl⟩
  | storeNone hpoint hnone =>
      exact ⟨rfl, rfl, Function.update_of_ne hi _ _, rfl⟩
  | storeSus hpoint hsus =>
      exact ⟨rfl, rfl, Function.update_of_ne hi _ _, rfl⟩
  | storeTopic k hpoint hk =>
      exact ⟨rfl, rfl, rfl, Function.update_of_ne hi _ _⟩
  | readName hpoint line _ hline =>
      rcases Shared.takeLine_some hline with ⟨_, _, _, _, rfl⟩ | ⟨_, rfl⟩
      · exact SameRow.refl _ i
      · exact SameRow.refl _ i
  | readSus hpoint line _ hline =>
      rcases Shared.takeLine_some hline with ⟨_, _, _, _, rfl⟩ | ⟨_, rfl⟩
      · exact SameRow.refl _ i
      · exact SameRow.refl _ i
  | postControl hpoint =>
      split
      · exact SameRow.refl _ i
      · exact SameRow.refl _ i
  | waitMutex hpoint hfree => exact SameRow.refl _ i
  | topicsDone k hpoint hk => exact SameRow.refl _ i
  | advance hpoint => exact ⟨rfl, rfl, rfl, rfl⟩
  | postMutex hpoint => exact SameRow.refl _ i

theorem takeLine_keeps {fd : Fd} {line : Option (List Byte)}
    (h : s.takeLine fd = some (line, s')) :
    s'.tables = s.tables ∧ s'.semMutex = s.semMutex := by
  rcases Shared.takeLine_some h with ⟨_, _, _, _, rfl⟩ | ⟨_, rfl⟩
  · exact ⟨rfl, rfl⟩
  · exact ⟨rfl, rfl⟩

theorem Thread.Registers.stage_le (h : th.Registers s th' s') :
    th.stage ≤ 15 ∧ th.stage ≤ th'.stage := by
  cases h with
  | storeTopic k hpoint hk | topicsDone k hpoint hk =>
      simp only [Thread.stage, Point.stage, hpoint]
      lia
  | waitMutex hpoint | storeFd hpoint | readName hpoint | readSus hpoint
  | storeName hpoint | storeNone hpoint | storeSus hpoint | advance hpoint
  | postControl hpoint | postMutex hpoint =>
      simp [Thread.stage, Point.stage, hpoint]

theorem Thread.Registers.placed (h : th.Registers s th' s')
    (hplaced : th.Placed s.tables.fdIdx) : th'.Placed s'.tables.fdIdx := by
  rcases hplaced with ⟨hnext, hbelow⟩
  cases h with
  | storeFd hpoint hroom =>
      constructor
      · intro _ _
        rfl
      · simp [Thread.stage, Point.stage]
  | advance hpoint =>
      simp only [Thread.stage, Point.stage, hpoint] at hnext
      constructor
      · simp [Thread.stage, Point.stage]
      · intro _
        exact Nat.lt_succ_of_le (Nat.le_of_eq (hnext (by lia) (by lia)))
  | readName hpoint line _ hline | readSus hpoint line _ hline =>
      rw [(takeLine_keeps hline).left]
      simp only [Thread.stage, Point.stage, hpoint] at hnext
      constructor
      · simpa [Thread.stage, Point.stage] using hnext
      · simp [Thread.stage, Point.stage]
  | postControl hpoint =>
      simp only [Thread.stage, Point.stage, hpoint] at hbelow
      constructor
      · simp [Thread.stage, Point.stage]
      · split <;> simpa [Thread.stage, Point.stage] using hbelow
  | postMutex hpoint =>
      simp only [Thread.stage, Point.stage, hpoint] at hbelow
      constructor
      · simp [Thread.stage, Point.stage]
      · simpa [Thread.stage, Point.stage] using hbelow
  | waitMutex hpoint =>
      constructor <;> simp [Thread.stage, Point.stage]
  | storeName hpoint | storeNone hpoint | storeSus hpoint
  | storeTopic k hpoint hk | topicsDone k hpoint hk =>
      simp only [Thread.stage, Point.stage, hpoint] at hnext
      constructor
      · intro _ _
        exact hnext (by lia) (by lia)
      · simp only [Thread.stage, Point.stage]
        lia

theorem Thread.stored_early {t : Tables} (hstage : th.stage ≤ 4)
    (hfd : 2 ≤ th.stage -> t.clientFdList th.row = th.connfd) :
    th.Stored t := by
  constructor
  · exact hfd
  all_goals
    intros
    lia

theorem Thread.Stored.later {t : Tables} (h : th.Stored t)
    (hstage : 12 ≤ th.stage) (p : Point) :
    Thread.Stored { th with point := p } t := by
  constructor
  · intro _
    exact h.fd (by lia)
  · intro _
    exact h.name (by lia)
  · intro _
    exact h.sus (by lia)
  · intro _
    exact h.mask (by lia)
  · intro j _ hj
    have hlt : 6 + j < th.stage := by
      unfold TOPICS_NUMBER at hj
      lia
    exact h.topics j hlt hj

theorem Thread.Registers.stored (h : th.Registers s th' s')
    (hplaced : th.Placed s.tables.fdIdx) (hstored : th.Stored s.tables) :
    th'.Stored s'.tables := by
  have hnext := hplaced.next
  have hfd := hstored.fd
  have hname := hstored.name
  have hsus := hstored.sus
  cases h with
  | waitMutex hpoint =>
      apply Thread.stored_early
      · simp [Thread.stage, Point.stage]
      · simp [Thread.stage, Point.stage]
  | storeFd hpoint hroom =>
      apply Thread.stored_early
      · simp [Thread.stage, Point.stage]
      · intro _
        exact Function.update_self ..
  | readName hpoint line _ hline | readSus hpoint line _ hline =>
      rw [(takeLine_keeps hline).left]
      simp only [Thread.stage, Point.stage, hpoint] at hfd
      apply Thread.stored_early
      · simp [Thread.stage, Point.stage]
      · intro _
        exact hfd (by lia)
  | storeName hpoint =>
      simp only [Thread.stage, Point.stage, hpoint] at hfd hnext
      constructor
      · intro _
        exact hfd (by lia)
      · intro _
        show Function.update _ _ _ th.row = _
        rw [hnext (by lia) (by lia), Function.update_self]
      all_goals
        simp only [Thread.stage, Point.stage]
        intros
        lia
  | storeNone hpoint hnone =>
      simp only [Thread.stage, Point.stage, hpoint] at hfd hname hnext
      constructor
      · intro _
        exact hfd (by lia)
      · intro _
        exact hname (by lia)
      · intro _
        show Function.update _ _ _ th.row = _
        rw [hnext (by lia) (by lia), Function.update_self]
      · intro _ hsome
        exact absurd (hnone.symm.trans hsome) (by decide)
      · intro j _ _ hsome
        exact absurd (hnone.symm.trans hsome) (by decide)
  | storeSus hpoint hsome =>
      simp only [Thread.stage, Point.stage, hpoint] at hfd hname hnext
      constructor
      · intro _
        exact hfd (by lia)
      · intro _
        exact hname (by lia)
      · intro _
        show Function.update _ _ _ th.row = _
        rw [hnext (by lia) (by lia), Function.update_self]
      · intro _ _
        rfl
      · simp only [Thread.stage, Point.stage]
        intros
        lia
  | storeTopic k hpoint hk =>
      have hmask := hstored.mask
      have htopics := hstored.topics
      simp only [Thread.stage, Point.stage, hpoint] at hfd hname hsus hnext
      simp only [Thread.stage, Point.stage, hpoint] at hmask htopics
      have hrow := hnext (by lia) (by lia)
      unfold TOPICS_NUMBER at hk
      constructor
      · intro _
        exact hfd (by lia)
      · intro _
        exact hname (by lia)
      · intro _
        exact hsus (by lia)
      · intro _
        exact hmask (by lia)
      · intro j hstage hj hsome
        simp only [Thread.stage, Point.stage] at hstage
        show Function.update s.tables.topicList s.tables.fdIdx
          (Function.update (s.tables.topicList s.tables.fdIdx) k _) th.row j = _
        rw [hrow, Function.update_self]
        by_cases hjk : j = k
        · rw [hjk, Function.update_self]
        · rw [Function.update_of_ne hjk, ← hrow]
          exact htopics j (by lia) hj hsome
  | topicsDone k hpoint hk =>
      apply hstored.later
      unfold TOPICS_NUMBER at hk
      simp only [Thread.stage, Point.stage, hpoint]
      lia
  | advance hpoint =>
      have hkept : th.Stored s.tables.advance :=
        hstored.of_sameRow fun _ => ⟨rfl, rfl, rfl, rfl⟩
      apply hkept.later
      simp [Thread.stage, Point.stage, hpoint]
  | postControl hpoint =>
      have hlater := hstored.later
        (by simp [Thread.stage, Point.stage, hpoint]) .postMutex
      split
      · exact hlater
      · exact hlater
  | postMutex hpoint =>
      apply hstored.later
      simp [Thread.stage, Point.stage, hpoint]

theorem Thread.Registers.mutex (h : th.Registers s th' s') :
    (th.stage = 0 ∧ th'.stage = 1 ∧ 0 < s.semMutex ∧
        s'.semMutex = s.semMutex - 1) ∨
      (th.stage = 15 ∧ th'.stage = 16 ∧ s'.semMutex = s.semMutex + 1) ∨
      (th.InSection ∧ th'.InSection ∧ s'.semMutex = s.semMutex) := by
  cases h with
  | waitMutex hpoint hfree =>
      left
      simpa [Thread.stage, Point.stage, hpoint] using hfree
  | postMutex hpoint =>
      right; left
      simp [Thread.stage, Point.stage, hpoint]
  | readName hpoint line _ hline | readSus hpoint line _ hline =>
      right; right
      rw [(takeLine_keeps hline).right]
      simp [Thread.InSection, Thread.stage, Point.stage, hpoint]
  | postControl hpoint =>
      right; right
      split <;> simp [Thread.InSection, Thread.stage, Point.stage, hpoint]
  | storeTopic k hpoint hk | topicsDone k hpoint hk =>
      right; right
      simp only [Thread.InSection, Thread.stage, Point.stage, hpoint]
      lia
  | storeFd hpoint | storeName hpoint | storeNone hpoint | storeSus hpoint
  | advance hpoint =>
      right; right
      simp [Thread.InSection, Thread.stage, Point.stage, hpoint]

theorem Thread.Registers.fdIdx_le (h : th.Registers s th' s') :
    s.tables.fdIdx ≤ s'.tables.fdIdx := by
  cases h with
  | readName hpoint line _ hline | readSus hpoint line _ hline =>
      rw [(takeLine_keeps hline).left]
  | postControl hpoint =>
      split
      · exact Nat.le_refl _
      · exact Nat.le_refl _
  | advance hpoint => exact Nat.le_succ _
  | waitMutex hpoint | storeFd hpoint | storeName hpoint | storeNone hpoint
  | storeSus hpoint | storeTopic k hpoint | topicsDone k hpoint
  | postMutex hpoint => exact Nat.le_refl _

/-- The counter passes a row when its registration is through. -/
theorem Thread.Registers.passed_new (h : th.Registers s th' s')
    (hplaced : th.Placed s.tables.fdIdx) {i : Nat} (hi : s.tables.fdIdx ≤ i)
    (hi' : i < s'.tables.fdIdx) : th'.row = i ∧ 14 ≤ th'.stage := by
  have hnext := hplaced.next
  cases h with
  | advance hpoint =>
      simp only [Thread.stage, Point.stage, hpoint] at hnext
      have hrow := hnext (by lia) (by lia)
      have hlt : i < s.tables.fdIdx + 1 := hi'
      constructor
      · show th.row = i
        lia
      · simp [Thread.stage, Point.stage]
  | readName hpoint line _ hline | readSus hpoint line _ hline =>
      rw [(takeLine_keeps hline).left] at hi'
      lia
  | postControl hpoint =>
      split at hi'
      · exact absurd hi' (Nat.not_lt.mpr hi)
      · exact absurd hi' (Nat.not_lt.mpr hi)
  | waitMutex hpoint | storeFd hpoint | storeName hpoint | storeNone hpoint
  | storeSus hpoint | storeTopic k hpoint | topicsDone k hpoint
  | postMutex hpoint => exact absurd hi' (Nat.not_lt.mpr hi)

theorem Thread.Registers.row_eq (h : th.Registers s th' s')
    (hstage : 2 ≤ th.stage) : th'.row = th.row := by
  cases h with
  | storeFd hpoint =>
      simp [Thread.stage, Point.stage, hpoint] at hstage
  | waitMutex hpoint | readName hpoint | readSus hpoint | storeName hpoint
  | storeNone hpoint | storeSus hpoint | storeTopic k hpoint
  | topicsDone k hpoint | advance hpoint | postControl hpoint
  | postMutex hpoint => rfl

theorem Thread.Registers.row_new (h : th.Registers s th' s')
    (hstage : th.stage < 2) (hstage' : 2 ≤ th'.stage) :
    th'.row = s.tables.fdIdx := by
  cases h with
  | storeFd hpoint => rfl
  | waitMutex hpoint =>
      simp [Thread.stage, Point.stage] at hstage'
  | storeTopic k hpoint | topicsDone k hpoint =>
      simp only [Thread.stage, Point.stage, hpoint] at hstage
      lia
  | readName hpoint | readSus hpoint | storeName hpoint | storeNone hpoint
  | storeSus hpoint | advance hpoint | postControl hpoint
  | postMutex hpoint =>
      simp [Thread.stage, Point.stage, hpoint] at hstage

theorem Thread.Registers.registration_eq (h : th.Registers s th' s')
    (hstage : 4 ≤ th.stage) : th'.registration = th.registration := by
  cases h with
  | readName hpoint | readSus hpoint =>
      simp [Thread.stage, Point.stage, hpoint] at hstage
  | waitMutex hpoint | storeFd hpoint | storeName hpoint
  | storeNone hpoint | storeSus hpoint | storeTopic k hpoint
  | topicsDone k hpoint | advance hpoint | postControl hpoint
  | postMutex hpoint => rfl

theorem Thread.Registers.connfd_eq (h : th.Registers s th' s') :
    th'.connfd = th.connfd := by
  cases h <;> rfl

theorem Thread.Registers.entry_new (h : th.Registers s th' s')
    (hplaced : th.Placed s.tables.fdIdx) (i : Nat) :
    (s'.tables.clientNameList i = s.tables.clientNameList i ∨
        (th'.row = i ∧ 5 ≤ th'.stage)) ∧
      (s'.tables.clientSusList i = s.tables.clientSusList i ∨
        (th'.row = i ∧ 6 ≤ th'.stage)) := by
  have hnext := hplaced.next
  cases h with
  | storeName hpoint =>
      simp only [Thread.stage, Point.stage, hpoint] at hnext
      refine ⟨?_, Or.inl rfl⟩
      by_cases hi : i = s.tables.fdIdx
      · right
        constructor
        · exact (hnext (by lia) (by lia)).trans hi.symm
        · simp [Thread.stage, Point.stage]
      · exact Or.inl (Function.update_of_ne hi _ _)
  | storeNone hpoint hnone | storeSus hpoint hsome =>
      simp only [Thread.stage, Point.stage, hpoint] at hnext
      refine ⟨Or.inl rfl, ?_⟩
      by_cases hi : i = s.tables.fdIdx
      · right
        constructor
        · exact (hnext (by lia) (by lia)).trans hi.symm
        · simp [Thread.stage, Point.stage]
      · exact Or.inl (Function.update_of_ne hi _ _)
  | readName hpoint line _ hline | readSus hpoint line _ hline =>
      rw [(takeLine_keeps hline).left]
      exact ⟨Or.inl rfl, Or.inl rfl⟩
  | postControl hpoint =>
      split
      · exact ⟨Or.inl rfl, Or.inl rfl⟩
      · exact ⟨Or.inl rfl, Or.inl rfl⟩
  | waitMutex hpoint | storeFd hpoint | storeTopic k hpoint
  | topicsDone k hpoint | advance hpoint | postMutex hpoint =>
      exact ⟨Or.inl rfl, Or.inl rfl⟩

end

/-!
# One step of a forwarder
-/

structure Thread.Keeps (th th' : Thread) : Prop where
  stage : th.stage = 16 ∧ th'.stage = 16
  row : th'.row = th.row
  connfd : th'.connfd = th.connfd
  left : th'.left = th.left
  name : th'.bufNodeName = th.bufNodeName
  sus : th'.bufSusInfo = th.bufSusInfo
  mask : th'.subscribedInfo = th.subscribedInfo

theorem Thread.Forwards.keeps {th th' : Thread} {left : MessageLeftover}
    {s s' : Shared} (h : th.Forwards left s th' s') :
    th.Keeps th' ∧ s'.tables = s.tables ∧ s'.semMutex = s.semMutex := by
  cases h with
  | readLine i line _ hpoint hline =>
      refine ⟨?_, (takeLine_keeps hline).left, (takeLine_keeps hline).right⟩
      cases line with
      | none =>
          constructor
          · simp [Thread.receives, Thread.stage, Point.stage, hpoint]
          all_goals rfl
      | some bytes =>
          constructor
          · simp [Thread.receives, Thread.stage, Point.stage, hpoint]
          all_goals rfl
  | waitControl hpoint | passOver i hpoint | rowFound i sus hpoint
  | rowNone i sus hpoint | rowSubscribed i sus hpoint
  | loadPublisher i sus hpoint | loadSuscriber i hpoint | loadTopic i j hpoint
  | topicsLoaded i j hpoint | findPublisher i fd hpoint
  | findSuscriber i name fd hpoint | written i hpoint
  | write i buf rest hpoint =>
      refine ⟨?_, rfl, rfl⟩
      constructor
      · simp [Thread.stage, Point.stage, hpoint]
      all_goals rfl

theorem Thread.Keeps.placed {th th' : Thread} {fdIdx : Nat}
    (h : th.Keeps th') (hplaced : th.Placed fdIdx) : th'.Placed fdIdx := by
  constructor
  · intro _ hstage
    rw [h.stage.right] at hstage
    lia
  · intro _
    rw [h.row]
    exact hplaced.below (by rw [h.stage.left]; lia)

theorem Thread.Keeps.stored {th th' : Thread} {t : Tables}
    (h : th.Keeps th') (hstored : th.Stored t) : th'.Stored t := by
  have hstage : th'.stage = th.stage := h.stage.right.trans h.stage.left.symm
  constructor
  · rw [hstage, h.row, h.connfd]
    exact hstored.fd
  · rw [hstage, h.row, h.name]
    exact hstored.name
  · rw [hstage, h.row, h.sus, h.left]
    exact hstored.sus
  · rw [hstage, h.sus, h.mask, h.left]
    exact hstored.mask
  · rw [hstage, h.row, h.sus, h.mask]
    exact hstored.topics

theorem Thread.Keeps.registration {th th' : Thread} (h : th.Keeps th') :
    th'.registration = th.registration := by
  unfold Thread.registration
  rw [h.connfd, h.name, h.sus, h.left]

/-!
# Owners of rows
-/

/-- Row `i` belongs to a thread whose registration has come to stage `n`. -/
def OwnerOf (threads : List Thread) (n i : Nat) (row : Row) : Prop :=
  exists (u : Nat) (owner : Thread), threads[u]? = some owner ∧
    owner.row = i ∧ n ≤ owner.stage ∧ owner.registration = row

section

variable {threads : List Thread} {th th' : Thread} {t n i : Nat} {row : Row}

theorem OwnerOf.set (hth : threads[t]? = some th) (hn : 4 ≤ n)
    (hkept : 4 ≤ th.stage -> th'.row = th.row ∧ th.stage ≤ th'.stage ∧
      th'.registration = th.registration)
    (howner : OwnerOf threads n i row) :
    OwnerOf (threads.set t th') n i row := by
  rcases howner with ⟨u, owner, hu, hrow, hstage, hreg⟩
  by_cases hut : u = t
  · rw [hut, hth] at hu
    cases hu
    rcases hkept (by lia) with ⟨hrow', hstage', hreg'⟩
    exact ⟨t, th', getElem?_set_self hth th', hrow'.trans hrow, by lia,
      hreg'.trans hreg⟩
  · refine ⟨u, owner, ?_, hrow, hstage, hreg⟩
    rw [getElem?_set_of_some hth, if_neg hut, hu]

theorem OwnerOf.append (new : Thread) (howner : OwnerOf threads n i row) :
    OwnerOf (threads ++ [new]) n i row := by
  rcases howner with ⟨u, owner, hu, howned⟩
  refine ⟨u, owner, ?_, howned⟩
  rw [List.getElem?_append_left (List.getElem?_eq_some_iff.mp hu).choose]
  exact hu

theorem OwnerOf.registers {s s' : Shared} (hth : threads[t]? = some th)
    (h : th.Registers s th' s') (hn : 4 ≤ n)
    (howner : OwnerOf threads n i row) :
    OwnerOf (threads.set t th') n i row := by
  apply howner.set hth hn
  intro hstage
  exact ⟨h.row_eq (by lia), h.stage_le.right, h.registration_eq hstage⟩

theorem OwnerOf.keeps (hth : threads[t]? = some th) (h : th.Keeps th')
    (hn : 4 ≤ n) (howner : OwnerOf threads n i row) :
    OwnerOf (threads.set t th') n i row := by
  apply howner.set hth hn
  intro _
  exact ⟨h.row, by rw [h.stage.left, h.stage.right], h.registration⟩

end

/-!
# Every run
-/

/-- What holds of the registrations in every reachable state. -/
structure Registering (s : System) : Prop where
  mutex : s.shared.semMutex ≤ 1
  free : 0 < s.shared.semMutex -> forall (t : Nat) th,
    s.threads[t]? = some th -> ¬ th.InSection
  alone : forall (t u : Nat) th other, s.threads[t]? = some th ->
    s.threads[u]? = some other -> th.InSection -> other.InSection -> t = u
  placed : forall (t : Nat) th, s.threads[t]? = some th ->
    th.Placed s.shared.tables.fdIdx
  stored : forall (t : Nat) th, s.threads[t]? = some th ->
    th.Stored s.shared.tables
  distinct : forall (t u : Nat) th other, s.threads[t]? = some th ->
    s.threads[u]? = some other -> 2 ≤ th.stage -> 2 ≤ other.stage ->
      th.row = other.row -> t = u
  named : forall i name, s.shared.tables.clientNameList i = some name ->
    exists row, OwnerOf s.threads 5 i row
  owned : forall i sus, s.shared.tables.clientSusList i = some sus ->
    exists row, OwnerOf s.threads 6 i row
  passed : forall i, i < s.shared.tables.fdIdx ->
    exists row, OwnerOf s.threads 14 i row

theorem registering_initial : Registering System.initial where
  mutex := Nat.le_refl 1
  free := by
    intro _ t th hth
    simp [System.initial] at hth
  alone := by
    intro t u th other hth
    simp [System.initial] at hth
  placed := by
    intro t th hth
    simp [System.initial] at hth
  stored := by
    intro t th hth
    simp [System.initial] at hth
  distinct := by
    intro t u th other hth
    simp [System.initial] at hth
  named := by
    intro i name hname
    cases hname
  owned := by
    intro i sus hsus
    cases hsus
  passed := by
    intro i hi
    cases hi

theorem Registering.outside {s : System} {s' : Shared} {t u : Nat}
    {th th' other : Thread} (hs : Registering s)
    (hth : s.threads[t]? = some th) (h : th.Registers s.shared th' s')
    (hother : s.threads[u]? = some other) (hut : u ≠ t) :
    ¬ other.InSection := by
  intro hin
  rcases h.mutex with ⟨_, _, hfree, _⟩ | ⟨hstage, _, _⟩ | ⟨hsection, _, _⟩
  · exact hs.free hfree u other hother hin
  · have hsection : th.InSection := by
      unfold Thread.InSection
      lia
    exact hut (hs.alone u t other th hother hth hin hsection)
  · exact hut (hs.alone u t other th hother hth hin hsection)

theorem Registering.past {s : System} {s' : Shared} {t u : Nat}
    {th th' other : Thread} (hs : Registering s)
    (hth : s.threads[t]? = some th) (h : th.Registers s.shared th' s')
    (hut : u ≠ t) (hother : s.threads[u]? = some other)
    (hstage : 2 ≤ other.stage) :
    16 ≤ other.stage ∧ other.row < s.shared.tables.fdIdx := by
  have hout := hs.outside hth h hother hut
  have hlate : 16 ≤ other.stage := by
    unfold Thread.InSection at hout
    lia
  exact ⟨hlate, (hs.placed u other hother).below (by lia)⟩

theorem Thread.Keeps.before {s : System} {threads : List Thread} {t u : Nat}
    {th th' other : Thread} (h : th.Keeps th') (hth : s.threads[t]? = some th)
    (hthreads : threads = s.threads.set t th')
    (hother : threads[u]? = some other) :
    exists before, s.threads[u]? = some before ∧
      other.stage = before.stage ∧ other.row = before.row := by
  rw [hthreads] at hother
  rcases getElem?_set_cases hth hother with ⟨hu, rfl⟩ | ⟨_, hold⟩
  · rw [hu]
    exact ⟨th, hth, h.stage.right.trans h.stage.left.symm, h.row⟩
  · exact ⟨other, hold, rfl, rfl⟩

theorem Thread.stage_start (connfd : Fd) (left : Leftover) :
    (Thread.start connfd left).stage = 0 :=
  rfl

theorem getElem?_of_started {threads : List Thread} {connfd : Fd}
    {left : Leftover} {u : Nat} {other : Thread}
    (hother : (threads ++ [Thread.start connfd left])[u]? = some other)
    (hstage : 1 ≤ other.stage) : threads[u]? = some other := by
  rcases getElem?_append_cases hother with ⟨_, rfl⟩ | hold
  · rw [Thread.stage_start] at hstage
    lia
  · exact hold

theorem Registering.of_registers {s s' : System} {t : Nat} {th th' : Thread}
    (hs : Registering s) (hth : s.threads[t]? = some th)
    (h : th.Registers s.shared th' s'.shared)
    (hthreads : s'.threads = s.threads.set t th') : Registering s' where
  mutex := by
    rcases h.mutex with ⟨_, _, _, heq⟩ | ⟨hstage, _, heq⟩ | ⟨_, _, heq⟩
    · rw [heq]
      exact Nat.le_trans (Nat.sub_le _ _) hs.mutex
    · rw [heq]
      have hzero : ¬ 0 < s.shared.semMutex := by
        intro hfree
        apply hs.free hfree t th hth
        unfold Thread.InSection
        lia
      lia
    · rw [heq]
      exact hs.mutex
  free := by
    intro hfree u other hother hin
    rw [hthreads] at hother
    rcases getElem?_set_cases hth hother with ⟨_, rfl⟩ | ⟨hut, hold⟩
    · rcases h.mutex with ⟨_, _, _, heq⟩ | ⟨_, hstage, _⟩ | ⟨hsection, _, heq⟩
      · have hmutex := hs.mutex
        lia
      · unfold Thread.InSection at hin
        lia
      · rw [heq] at hfree
        exact hs.free hfree t th hth hsection
    · exact hs.outside hth h hold hut hin
  alone := by
    intro u v one other hone hother hin hin'
    rw [hthreads] at hone hother
    rcases getElem?_set_cases hth hone with ⟨hu, _⟩ | ⟨hu, hold⟩
    · rcases getElem?_set_cases hth hother with ⟨hv, _⟩ | ⟨hv, hold'⟩
      · rw [hu, hv]
      · exact absurd hin' (hs.outside hth h hold' hv)
    · exact absurd hin (hs.outside hth h hold hu)
  placed := by
    intro u other hother
    rw [hthreads] at hother
    rcases getElem?_set_cases hth hother with ⟨_, rfl⟩ | ⟨hut, hold⟩
    · exact h.placed (hs.placed t th hth)
    · constructor
      · intro hstage hsection
        have hlate := (hs.past hth h hut hold hstage).left
        lia
      · intro hstage
        exact Nat.lt_of_lt_of_le ((hs.placed u other hold).below hstage)
          h.fdIdx_le
  stored := by
    intro u other hother
    rw [hthreads] at hother
    rcases getElem?_set_cases hth hother with ⟨_, rfl⟩ | ⟨hut, hold⟩
    · exact h.stored (hs.placed t th hth) (hs.stored t th hth)
    · apply (hs.stored u other hold).of_sameRow
      intro hstage
      apply h.sameRow
      exact Nat.ne_of_lt (hs.past hth h hut hold hstage).right
  distinct := by
    have hnew : forall (v : Nat) other, v ≠ t -> s.threads[v]? = some other ->
        2 ≤ th'.stage -> 2 ≤ other.stage -> th'.row ≠ other.row := by
      intro v other hvt hother hstage hstage' hrow
      rcases Nat.lt_or_ge th.stage 2 with hearly | hlate
      · rw [h.row_new hearly hstage] at hrow
        exact Nat.ne_of_gt (hs.past hth h hvt hother hstage').right hrow
      · rw [h.row_eq hlate] at hrow
        exact hvt (hs.distinct t v th other hth hother hlate hstage' hrow).symm
    intro u v one other hone hother hstage hstage' hrow
    rw [hthreads] at hone hother
    rcases getElem?_set_cases hth hone with ⟨hu, rfl⟩ | ⟨hu, hold⟩
    · rcases getElem?_set_cases hth hother with ⟨hv, _⟩ | ⟨hv, hold'⟩
      · rw [hu, hv]
      · exact absurd hrow (hnew v other hv hold' hstage hstage')
    · rcases getElem?_set_cases hth hother with ⟨hv, rfl⟩ | ⟨hv, hold'⟩
      · exact absurd hrow.symm (hnew u one hu hold hstage' hstage)
      · exact hs.distinct u v one other hold hold' hstage hstage' hrow
  named := by
    intro i name hname
    rw [hthreads]
    rcases (h.entry_new (hs.placed t th hth) i).left with hold | hnew
    · rw [hold] at hname
      exact (hs.named i name hname).imp fun _ howner =>
        howner.registers hth h (by lia)
    · exact ⟨th'.registration, t, th', getElem?_set_self hth th',
        hnew.left, hnew.right, rfl⟩
  owned := by
    intro i sus hsus
    rw [hthreads]
    rcases (h.entry_new (hs.placed t th hth) i).right with hold | hnew
    · rw [hold] at hsus
      exact (hs.owned i sus hsus).imp fun _ howner =>
        howner.registers hth h (by lia)
    · exact ⟨th'.registration, t, th', getElem?_set_self hth th',
        hnew.left, hnew.right, rfl⟩
  passed := by
    intro i hi
    rw [hthreads]
    rcases Nat.lt_or_ge i s.shared.tables.fdIdx with hold | hnew
    · exact (hs.passed i hold).imp fun _ howner =>
        howner.registers hth h (by lia)
    · have hrow := h.passed_new (hs.placed t th hth) hnew hi
      exact ⟨th'.registration, t, th', getElem?_set_self hth th',
        hrow.left, hrow.right, rfl⟩

theorem Registering.of_keeps {s s' : System} {t : Nat} {th th' : Thread}
    (hs : Registering s) (hth : s.threads[t]? = some th) (h : th.Keeps th')
    (htables : s'.shared.tables = s.shared.tables)
    (hmutex : s'.shared.semMutex = s.shared.semMutex)
    (hthreads : s'.threads = s.threads.set t th') : Registering s' where
  mutex := by
    rw [hmutex]
    exact hs.mutex
  free := by
    intro hfree u other hother
    rw [hmutex] at hfree
    rcases h.before hth hthreads hother with ⟨before, hbefore, hstage, _⟩
    unfold Thread.InSection
    rw [hstage]
    exact hs.free hfree u before hbefore
  alone := by
    intro u v one other hone hother hin hin'
    rcases h.before hth hthreads hone with ⟨before, hbefore, hstage, _⟩
    rcases h.before hth hthreads hother with ⟨before', hbefore', hstage', _⟩
    unfold Thread.InSection at hin hin'
    rw [hstage] at hin
    rw [hstage'] at hin'
    exact hs.alone u v before before' hbefore hbefore' hin hin'
  placed := by
    intro u other hother
    rw [htables]
    rw [hthreads] at hother
    rcases getElem?_set_cases hth hother with ⟨_, rfl⟩ | ⟨_, hother⟩
    · exact h.placed (hs.placed t th hth)
    · exact hs.placed u other hother
  stored := by
    intro u other hother
    rw [htables]
    rw [hthreads] at hother
    rcases getElem?_set_cases hth hother with ⟨_, rfl⟩ | ⟨_, hother⟩
    · exact h.stored (hs.stored t th hth)
    · exact hs.stored u other hother
  distinct := by
    intro u v one other hone hother hin hin' hrow
    rcases h.before hth hthreads hone with ⟨before, hbefore, hstage, heq⟩
    rcases h.before hth hthreads hother with
      ⟨before', hbefore', hstage', heq'⟩
    rw [hstage] at hin
    rw [hstage'] at hin'
    rw [heq, heq'] at hrow
    exact hs.distinct u v before before' hbefore hbefore' hin hin' hrow
  named := by
    intro i name hname
    rw [htables] at hname
    rw [hthreads]
    exact (hs.named i name hname).imp fun _ howner =>
      howner.keeps hth h (by lia)
  owned := by
    intro i sus hsus
    rw [htables] at hsus
    rw [hthreads]
    exact (hs.owned i sus hsus).imp fun _ howner =>
      howner.keeps hth h (by lia)
  passed := by
    intro i hi
    rw [htables] at hi
    rw [hthreads]
    exact (hs.passed i hi).imp fun _ howner =>
      howner.keeps hth h (by lia)

theorem Registering.of_accept {s s' : System} {connfd : Fd} {left : Leftover}
    (hs : Registering s) (hshared : s'.shared = s.shared)
    (hthreads : s'.threads = s.threads ++ [Thread.start connfd left]) :
    Registering s' where
  mutex := by
    rw [hshared]
    exact hs.mutex
  free := by
    intro hfree u other hother hin
    rw [hshared] at hfree
    rw [hthreads] at hother
    exact hs.free hfree u other (getElem?_of_started hother hin.left) hin
  alone := by
    intro u v one other hone hother hin hin'
    rw [hthreads] at hone hother
    exact hs.alone u v one other (getElem?_of_started hone hin.left)
      (getElem?_of_started hother hin'.left) hin hin'
  placed := by
    intro u other hother
    rw [hshared]
    rw [hthreads] at hother
    rcases getElem?_append_cases hother with ⟨_, rfl⟩ | hold
    · constructor
      · simp [Thread.stage_start]
      · simp [Thread.stage_start]
    · exact hs.placed u other hold
  stored := by
    intro u other hother
    rw [hshared]
    rw [hthreads] at hother
    rcases getElem?_append_cases hother with ⟨_, rfl⟩ | hold
    · apply Thread.stored_early
      · simp [Thread.stage_start]
      · simp [Thread.stage_start]
    · exact hs.stored u other hold
  distinct := by
    intro u v one other hone hother hstage hstage' hrow
    rw [hthreads] at hone hother
    exact hs.distinct u v one other (getElem?_of_started hone (by lia))
      (getElem?_of_started hother (by lia)) hstage hstage' hrow
  named := by
    intro i name hname
    rw [hshared] at hname
    rw [hthreads]
    exact (hs.named i name hname).imp fun _ howner => howner.append _
  owned := by
    intro i sus hsus
    rw [hshared] at hsus
    rw [hthreads]
    exact (hs.owned i sus hsus).imp fun _ howner => howner.append _
  passed := by
    intro i hi
    rw [hshared] at hi
    rw [hthreads]
    exact (hs.passed i hi).imp fun _ howner => howner.append _

theorem Registering.step {s s' : System} {e : Event} (hs : Registering s)
    (hstep : s.step e = some s') : Registering s' := by
  cases e with
  | accept connfd left =>
      change (if _ then none else some _) = some s' at hstep
      split at hstep
      · cases hstep
      · cases hstep
        exact hs.of_accept rfl rfl
  | arrive fd line =>
      cases hstep
      exact ⟨hs.mutex, hs.free, hs.alone, hs.placed, hs.stored, hs.distinct,
        hs.named, hs.owned, hs.passed⟩
  | hangUp fd =>
      cases hstep
      exact ⟨hs.mutex, hs.free, hs.alone, hs.placed, hs.stored, hs.distinct,
        hs.named, hs.owned, hs.passed⟩
  | run t left =>
      rcases System.step_run hstep with ⟨th, th', hth, hrun, hthreads⟩
      rcases Thread.step_moves hrun with hregisters | hforwards
      · exact hs.of_registers hth hregisters hthreads
      · rcases hforwards.keeps with ⟨hkeeps, htables, hmutex⟩
        exact hs.of_keeps hth hkeeps htables hmutex hthreads

/-- The name, the descriptor and the subscription of a visible row are final. -/
theorem OwnerOf.tables {s : System} {n i : Nat} {row : Row}
    (hs : Registering s) (hn : 6 ≤ n) (howner : OwnerOf s.threads n i row) :
    s.shared.tables.clientNameList i = some row.name ∧
      s.shared.tables.clientFdList i = row.fd ∧
      s.shared.tables.clientSusList i = some row.sus := by
  rcases howner with ⟨u, owner, hu, rfl, hstage, rfl⟩
  have hstored := hs.stored u owner hu
  exact ⟨hstored.name (by lia), hstored.fd (by lia), hstored.sus (by lia)⟩

theorem OwnerOf.passed {s : System} {n i : Nat} {row : Row}
    (hs : Registering s)
    (hidle : forall (t : Nat) th, s.threads[t]? = some th -> ¬ th.InSection)
    (hn : 1 ≤ n) (howner : OwnerOf s.threads n i row) :
    i < s.shared.tables.fdIdx := by
  rcases howner with ⟨u, owner, hu, rfl, hstage, _⟩
  have hout := hidle u owner hu
  unfold Thread.InSection at hout
  exact (hs.placed u owner hu).below (by lia)

/-- Between registrations the arrays are a list of rows, as after `register`. -/
theorem Registering.represents {s : System} (hs : Registering s)
    (hidle : forall (t : Nat) th, s.threads[t]? = some th -> ¬ th.InSection) :
    exists rows, Represents s.shared.tables rows ∧
      forall i row, rows[i]? = some row -> OwnerOf s.threads 14 i row := by
  let rows := List.ofFn fun i : Fin s.shared.tables.fdIdx =>
    (hs.passed i i.isLt).choose
  have howners : forall i row, rows[i]? = some row ->
      OwnerOf s.threads 14 i row := by
    intro i row hrow
    rw [List.getElem?_ofFn] at hrow
    split at hrow
    · cases hrow
      exact (hs.passed i ‹_›).choose_spec
    · cases hrow
  have hbehind : forall i, rows[i]? = none -> ¬ i < s.shared.tables.fdIdx := by
    intro i hnone hlt
    rw [List.getElem?_ofFn, dif_pos hlt] at hnone
    cases hnone
  refine ⟨rows, ?_, howners⟩
  constructor
  · rw [List.length_ofFn]
  · intro i
    cases hrow : rows[i]? with
    | some row => exact ((howners i row hrow).tables hs (by lia)).left
    | none =>
        cases hname : s.shared.tables.clientNameList i with
        | none => rfl
        | some name =>
            rcases hs.named i name hname with ⟨row, howner⟩
            exact absurd (howner.passed hs hidle (by lia)) (hbehind i hrow)
  · intro i
    cases hrow : rows[i]? with
    | some row => exact ((howners i row hrow).tables hs (by lia)).right.right
    | none =>
        cases hsus : s.shared.tables.clientSusList i with
        | none => rfl
        | some sus =>
            rcases hs.owned i sus hsus with ⟨row, howner⟩
            exact absurd (howner.passed hs hidle (by lia)) (hbehind i hrow)
  · intro i row hrow
    exact ((howners i row hrow).tables hs (by lia)).right.left
  · intro i row hrow hsub k hk
    rcases howners i row hrow with ⟨u, owner, hu, rfl, hstage, rfl⟩
    have hstored := hs.stored u owner hu
    have hnone := isNone_of_subscribed hsub
    have hlate : 6 + k < owner.stage := by
      unfold TOPICS_NUMBER at hk
      lia
    rw [hstored.topics k hlate hk hnone, hstored.mask (by lia) hnone]
    rfl

end Broker
end MQTTv1
