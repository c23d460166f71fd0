import Mathlib.Algebra.BigOperators.Group.List.Basic
import Mathlib.Algebra.Order.BigOperators.Group.List
import Mathlib.Algebra.GroupWithZero.Nat
import Mathlib.Algebra.Order.Group.Nat
import Mathlib.Data.List.Pairwise
import Mathlib.Data.List.Perm.Basic

/-!
Jobs that hold slots over closed intervals of time, placed one after another in
the order in which they start. A job takes over a slot of its pool that is large
enough and was released before the job starts, and opens a new one when there is
none. The jobs of a slot never overlap, the slots bound what is live at any time,
and with one size per pool the placement opens no more slots than some time needs.
-/

namespace MiniLLM.IntervalPartition

variable {Job Pool Time : Type} [LinearOrder Time]

structure Workload (Job Pool Time : Type) [LinearOrder Time] where
  pool : Job → Pool
  start : Job → Time
  finish : Job → Time
  size : Job → Nat
  ordered : ∀ job, start job ≤ finish job

namespace Workload

def Live (work : Workload Job Pool Time) (time : Time) (job : Job) : Prop :=
  work.start job ≤ time ∧ time ≤ work.finish job

instance (work : Workload Job Pool Time) (time : Time) : DecidablePred (work.Live time) :=
  fun _ => inferInstanceAs (Decidable (_ ∧ _))

/-- The weight of the jobs that are live at a time. -/
def load (work : Workload Job Pool Time) (weight : Job → Nat) (time : Time)
    (jobs : List Job) : Nat :=
  ((jobs.filter fun job => work.Live time job).map weight).sum

theorem load_append (work : Workload Job Pool Time) (weight : Job → Nat) (time : Time)
    (left right : List Job) :
    work.load weight time (left ++ right) =
      work.load weight time left + work.load weight time right := by
  simp [load]

theorem load_perm (work : Workload Job Pool Time) (weight : Job → Nat) (time : Time)
    {left right : List Job} (perm : left.Perm right) :
    work.load weight time left = work.load weight time right :=
  ((perm.filter _).map weight).sum_eq

theorem load_flatMap {Owner : Type} (work : Workload Job Pool Time) (weight : Job → Nat)
    (time : Time) (owners : List Owner) (jobs : Owner → List Job) :
    work.load weight time (owners.flatMap jobs) =
      (owners.map fun owner => work.load weight time (jobs owner)).sum := by
  induction owners with
  | nil => rfl
  | cons owner rest ih => simp [load_append, ih]

theorem le_load (work : Workload Job Pool Time) (weight : Job → Nat) (time : Time)
    {jobs : List Job} {job : Job} (member : job ∈ jobs) (live : work.Live time job) :
    weight job ≤ work.load weight time jobs :=
  List.le_sum_of_mem (List.mem_map_of_mem (List.mem_filter.mpr ⟨member, by simpa using live⟩))

/-- Jobs that follow one another are live one at a time. -/
theorem load_apart (work : Workload Job Pool Time) {weight : Job → Nat} {bound : Nat}
    (time : Time) {jobs : List Job}
    (apart : jobs.Pairwise fun a b => work.finish a < work.start b)
    (small : ∀ job ∈ jobs, weight job ≤ bound) : work.load weight time jobs ≤ bound := by
  have alone := apart.filter fun job => decide (work.Live time job)
  have live : ∀ job ∈ jobs.filter fun job => work.Live time job, work.Live time job := by
    intro job member
    simpa using (List.mem_filter.mp member).2
  unfold load
  match found : jobs.filter fun job => work.Live time job with
  | [] => simp
  | [job] =>
      have member : job ∈ jobs := List.mem_of_mem_filter (found ▸ List.mem_singleton_self job)
      simpa using small job member
  | a :: b :: rest =>
      rw [found] at alone live
      have gap : work.finish a < work.start b :=
        (List.pairwise_cons.mp alone).1 b List.mem_cons_self
      have late := (live a List.mem_cons_self).2
      have early := (live b (by simp)).1
      exact absurd (late.trans_lt (gap.trans_le early)) (lt_irrefl time)

end Workload

/-- A slot with the jobs it has held, in order. -/
structure Slot (work : Workload Job Pool Time) where
  pool : Pool
  size : Nat
  release : Time
  jobs : List Job
  same_pool : ∀ job ∈ jobs, work.pool job = pool
  fits : ∀ job ∈ jobs, work.size job ≤ size
  released : ∀ job ∈ jobs, work.finish job ≤ release
  apart : jobs.Pairwise fun a b => work.finish a < work.start b
  opener : ∃ job ∈ jobs, work.size job = size
  holder : ∃ job ∈ jobs, work.finish job = release

namespace Slot

variable {work : Workload Job Pool Time}

def fresh (work : Workload Job Pool Time) (job : Job) : Slot work where
  pool := work.pool job
  size := work.size job
  release := work.finish job
  jobs := [job]
  same_pool := by simp
  fits := by simp
  released := by simp
  apart := List.pairwise_singleton _ _
  opener := ⟨job, by simp⟩
  holder := ⟨job, by simp⟩

def reuse (slot : Slot work) (job : Job) (same : work.pool job = slot.pool)
    (enough : work.size job ≤ slot.size) (free : slot.release < work.start job) : Slot work where
  pool := slot.pool
  size := slot.size
  release := work.finish job
  jobs := slot.jobs ++ [job]
  same_pool := by
    intro other member
    rcases List.mem_append.mp member with old | new
    · exact slot.same_pool other old
    · exact List.mem_singleton.mp new ▸ same
  fits := by
    intro other member
    rcases List.mem_append.mp member with old | new
    · exact slot.fits other old
    · exact List.mem_singleton.mp new ▸ enough
  released := by
    intro other member
    rcases List.mem_append.mp member with old | new
    · exact (slot.released other old).trans (free.le.trans (work.ordered job))
    · exact (List.mem_singleton.mp new ▸ le_refl _)
  apart := by
    refine List.pairwise_append.mpr ⟨slot.apart, List.pairwise_singleton _ _, ?_⟩
    intro old member new last
    rw [List.mem_singleton.mp last]
    exact lt_of_le_of_lt (slot.released old member) free
  opener := by
    obtain ⟨first, member, size⟩ := slot.opener
    exact ⟨first, List.mem_append_left _ member, size⟩
  holder := ⟨job, by simp⟩

theorem load_le (slot : Slot work) {weight : Job → Nat} {bound : Nat} (time : Time)
    (small : ∀ job ∈ slot.jobs, weight job ≤ bound) :
    work.load weight time slot.jobs ≤ bound :=
  work.load_apart time slot.apart small

theorem size_le (slot : Slot work) : slot.size ≤ (slot.jobs.map work.size).sum := by
  obtain ⟨job, member, size⟩ := slot.opener
  rw [← size]
  exact List.le_sum_of_mem (List.mem_map_of_mem member)

/-- Two jobs of a slot hold it at different times. -/
theorem disjoint (slot : Slot work) {a b : Job} (left : a ∈ slot.jobs) (right : b ∈ slot.jobs)
    (different : a ≠ b) : work.finish a < work.start b ∨ work.finish b < work.start a := by
  have symmetric : Std.Symm fun a b : Job =>
      work.finish a < work.start b ∨ work.finish b < work.start a := ⟨fun _ _ => Or.symm⟩
  have either : slot.jobs.Pairwise fun a b =>
      work.finish a < work.start b ∨ work.finish b < work.start a := slot.apart.imp Or.inl
  exact either.forall left right different

end Slot

/-- One job finds its slot. -/
inductive Place (work : Workload Job Pool Time) (job : Job) :
    List (Slot work) → List (Slot work) → Prop where
  | reuse (before after : List (Slot work)) (slot : Slot work)
      (same : work.pool job = slot.pool) (enough : work.size job ≤ slot.size)
      (free : slot.release < work.start job) :
      Place work job (before ++ slot :: after)
        (before ++ slot.reuse job same enough free :: after)
  | fresh (slots : List (Slot work))
      (busy : ∀ slot ∈ slots, slot.pool = work.pool job → work.size job ≤ slot.size →
        work.start job ≤ slot.release) :
      Place work job slots (slots ++ [Slot.fresh work job])

inductive Run (work : Workload Job Pool Time) : List Job → List (Slot work) → Prop where
  | start : Run work [] []
  | place {placed : List Job} {slots slots' : List (Slot work)} {job : Job}
      (run : Run work placed slots)
      (sorted : ∀ earlier ∈ placed, work.start earlier ≤ work.start job)
      (step : Place work job slots slots') : Run work (placed ++ [job]) slots'

theorem Place.reuse_at {work : Workload Job Pool Time} {job : Job} {slots : List (Slot work)}
    {i : Nat} {slot : Slot work} (found : slots[i]? = some slot)
    (same : work.pool job = slot.pool) (enough : work.size job ≤ slot.size)
    (free : slot.release < work.start job) :
    Place work job slots (slots.set i (slot.reuse job same enough free)) := by
  obtain ⟨inside, rfl⟩ := List.getElem?_eq_some_iff.mp found
  have split : slots = slots.take i ++ slots[i] :: slots.drop (i + 1) := by simp
  rw [List.set_eq_take_append_cons_drop, if_pos inside]
  conv => arg 3; rw [split]
  exact Place.reuse _ _ _ same enough free

section Totals

variable {work : Workload Job Pool Time} {placed : List Job} {slots slots' : List (Slot work)}

theorem Place.perm {job : Job} (step : Place work job slots slots') :
    (slots'.flatMap Slot.jobs).Perm (slots.flatMap Slot.jobs ++ [job]) := by
  cases step with
  | reuse before after slot same enough free =>
      simp only [List.flatMap_append, List.flatMap_cons, Slot.reuse, List.append_assoc]
      refine List.Perm.append_left _ (List.Perm.append_left _ ?_)
      exact List.perm_append_comm
  | fresh _ busy => simp [Slot.fresh]

/-- Every job is in one slot, once. -/
theorem Run.perm (run : Run work placed slots) : (slots.flatMap Slot.jobs).Perm placed := by
  induction run with
  | start => exact List.Perm.nil
  | place run sorted step ih => exact step.perm.trans (ih.append_right _)

theorem Run.load_le (run : Run work placed slots) {weight : Job → Nat} {bound : Slot work → Nat}
    (small : ∀ slot ∈ slots, ∀ job ∈ slot.jobs, weight job ≤ bound slot) (time : Time) :
    work.load weight time placed ≤ (slots.map bound).sum := by
  rw [← work.load_perm weight time run.perm, work.load_flatMap]
  exact List.sum_le_sum fun slot member => slot.load_le time (small slot member)

/-- What is live at a time fits into the slots. -/
theorem Run.live_size_le (run : Run work placed slots) (time : Time) :
    work.load work.size time placed ≤ (slots.map Slot.size).sum :=
  run.load_le (fun slot _ => slot.fits) time

/-- The slots are no larger than all jobs side by side. -/
theorem Run.size_le (run : Run work placed slots) :
    (slots.map Slot.size).sum ≤ (placed.map work.size).sum := by
  calc (slots.map Slot.size).sum
      ≤ (slots.map fun slot => (slot.jobs.map work.size).sum).sum :=
        List.sum_le_sum fun slot _ => slot.size_le
    _ = ((slots.flatMap Slot.jobs).map work.size).sum := by
        rw [List.flatMap_def, List.map_flatten, List.sum_flatten, List.map_map, List.map_map]
        rfl
    _ = (placed.map work.size).sum := (run.perm.map work.size).sum_eq

end Totals

section Peak

variable [DecidableEq Pool] {work : Workload Job Pool Time} {placed : List Job}
  {slots slots' : List (Slot work)}

def slotCount (pool : Pool) (slots : List (Slot work)) : Nat :=
  slots.countP fun slot => slot.pool = pool

/-- The jobs of a pool that are live at a time. -/
def Workload.liveCount (work : Workload Job Pool Time) (pool : Pool) (time : Time)
    (jobs : List Job) : Nat :=
  jobs.countP fun job => work.pool job = pool ∧ work.Live time job

theorem sum_indicator {Item : Type} (keep : Item → Prop) [DecidablePred keep]
    (items : List Item) :
    (items.map fun item => if keep item then 1 else 0).sum = items.countP fun item => keep item := by
  induction items with
  | nil => rfl
  | cons item rest ih =>
      simp only [List.map_cons, List.sum_cons, List.countP_cons, ih, decide_eq_true_eq]
      exact Nat.add_comm _ _

theorem Workload.liveCount_eq (work : Workload Job Pool Time) (pool : Pool) (time : Time)
    (jobs : List Job) :
    work.liveCount pool time jobs =
      work.load (fun job => if work.pool job = pool then 1 else 0) time jobs := by
  rw [load, sum_indicator, List.countP_filter, liveCount]
  simp

/-- At no time are there more live jobs of a pool than it has slots. -/
theorem Run.liveCount_le (run : Run work placed slots) (pool : Pool) (time : Time) :
    work.liveCount pool time placed ≤ slotCount pool slots := by
  rw [work.liveCount_eq, slotCount, ← sum_indicator]
  apply run.load_le
  intro slot _ job member
  rw [slot.same_pool job member]

/-- All slots of a pool are held while each has a live job. -/
theorem Run.slotCount_le (run : Run work placed slots) {pool : Pool} {time : Time}
    (held : ∀ slot ∈ slots, slot.pool = pool → ∃ job ∈ slot.jobs, work.Live time job) :
    slotCount pool slots ≤ work.liveCount pool time placed := by
  rw [work.liveCount_eq, ← work.load_perm _ time run.perm, work.load_flatMap, slotCount,
    ← sum_indicator]
  refine List.sum_le_sum fun slot member => ?_
  split
  · next same =>
      obtain ⟨job, inside, live⟩ := held slot member same
      have counted := work.le_load (fun job => if work.pool job = pool then 1 else 0) time
        inside live
      rwa [slot.same_pool job inside, same, if_pos rfl] at counted
  · exact Nat.zero_le _

/-- Jobs of one pool are of one size. -/
def Workload.Uniform (work : Workload Job Pool Time) (jobs : List Job) : Prop :=
  ∀ a ∈ jobs, ∀ b ∈ jobs, work.pool a = work.pool b → work.size a = work.size b

/-- A slot opens only while all slots of its pool are held. -/
theorem Run.fresh_held (run : Run work placed slots) {job : Job}
    (sorted : ∀ earlier ∈ placed, work.start earlier ≤ work.start job)
    (uniform : work.Uniform (placed ++ [job]))
    (busy : ∀ slot ∈ slots, slot.pool = work.pool job → work.size job ≤ slot.size →
      work.start job ≤ slot.release) :
    slotCount (work.pool job) slots ≤ work.liveCount (work.pool job) (work.start job) placed := by
  apply run.slotCount_le
  intro slot member same
  have inside : ∀ other ∈ slot.jobs, other ∈ placed := fun other found =>
    run.perm.subset (List.mem_flatMap.mpr ⟨slot, member, found⟩)
  obtain ⟨first, opened, size⟩ := slot.opener
  have equal : work.size first = work.size job :=
    uniform first (List.mem_append_left _ (inside first opened)) job (by simp)
      ((slot.same_pool first opened).trans same)
  obtain ⟨holder, held, release⟩ := slot.holder
  have late := busy slot member same (by rw [← size, equal])
  exact ⟨holder, held, sorted holder (inside holder held), release ▸ late⟩

/-- With one size per pool, some job starts when as many jobs of its pool are live as
the pool has slots. -/
theorem Run.peak (run : Run work placed slots) (uniform : work.Uniform placed) (pool : Pool)
    (used : 0 < slotCount pool slots) :
    ∃ job ∈ placed, slotCount pool slots ≤ work.liveCount pool (work.start job) placed := by
  induction run with
  | start => simp [slotCount] at used
  | @place placed slots slots' job run sorted step ih =>
      have grows : ∀ time, work.liveCount pool time placed ≤
          work.liveCount pool time (placed ++ [job]) := fun time =>
        (List.sublist_append_left placed [job]).countP_le
      have smaller : work.Uniform placed := fun a left b right =>
        uniform a (List.mem_append_left _ left) b (List.mem_append_left _ right)
      have unchanged (same : slotCount pool slots' = slotCount pool slots) :
          ∃ other ∈ placed ++ [job], slotCount pool slots' ≤
            work.liveCount pool (work.start other) (placed ++ [job]) := by
        rw [same] at used ⊢
        obtain ⟨other, member, enough⟩ := ih smaller used
        exact ⟨other, List.mem_append_left _ member, enough.trans (grows _)⟩
      cases step with
      | reuse before after slot same enough free =>
          exact unchanged (by simp [slotCount, Slot.reuse, List.countP_cons])
      | fresh _ busy =>
          by_cases here : work.pool job = pool
          · subst here
            refine ⟨job, by simp, ?_⟩
            have held := run.fresh_held sorted uniform busy
            have live : work.Live (work.start job) job := ⟨le_refl _, work.ordered job⟩
            simpa [slotCount, Workload.liveCount, Slot.fresh, List.countP_cons, live] using held
          · exact unchanged (by simp [slotCount, Slot.fresh, here])

end Peak

end MiniLLM.IntervalPartition
