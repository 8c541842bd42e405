import RiscvKernel.Shade
import RiscvKernel.Timers
import Mathlib.Tactic.Abel

/-!
# Kernels with timed waits

`Kernel.Alert`: what holds of a kernel between two steps, with or without timed waits.

* `Shade.Hides`: a shade that takes the records of the timed waits out of the sleeping list;
* `Kernel.Alert.inv`, `Shade.Hides.alert`: the kernel is alert when the kernel without these
  records keeps the invariant.
-/

namespace RiscvKernel
open Function Intrusive Placement DeltaList

structure Kernel.Alert (k : Kernel) (b : Threads) (recs : List Nat) : Prop
    extends timers : k.Timers b recs k.view.kept where
  known : ∀ {t}, b.loc t ≠ none → k.view.Thread t
  placed : ∀ {t}, t ∈ k.hist.live → b.loc t ≠ none
  sleeps : ∀ {t r}, b.loc t = some (.spot (.asleep r)) →
    r ∈ recs ∧ (k.sleeping r).semaphore = 0 ∧ (k.sleeping r).thread = t
  short : ∀ {t}, k.view.Thread t → k.slice t ≤ 2
  lasts : ∀ {t}, k.view.Thread t → k.slice t = 0 →
    ∃ r ∈ recs, (k.sleeping r).semaphore ≠ 0 ∧ (k.sleeping r).thread = t
  count : k.scheduler.userThreadCount = k.hist.live.length

/-- The records of sleeping threads. -/
def Kernel.sleepers (k : Kernel) (recs : List Nat) : List Nat :=
  recs.filter fun r => (k.sleeping r).semaphore = 0

/-- The records of threads in timed waits. -/
def Kernel.timedWaiters (k : Kernel) (recs : List Nat) : List Nat :=
  recs.filter fun r => ¬ (k.sleeping r).semaphore = 0

/-- `m` takes the records of the timed waits out of the sleeping list. Their blocks are taken for
blocks of user code, and their threads have a full slice. -/
structure Shade.Hides (m : Shade) (k : Kernel) (recs : List Nat) : Prop where
  ring : IsRing m.links m.head (k.sleepers recs)
  threads : ∀ r ∈ k.sleepers recs, (m.sleeping r).thread = (k.sleeping r).thread
  untimed : ∀ r, (m.sleeping r).semaphore = 0
  range : ∀ x ∈ times 0 (entries m.sleeping (k.sleepers recs)), 1 ≤ x.2 ∧ x.2 < 2 ^ 64
  slice : ∀ t, m.slice t =
    if ∃ r ∈ recs, (k.sleeping r).semaphore ≠ 0 ∧ (k.sleeping r).thread = t
    then some defaultTimeSlice else none
  blocks : (m.blocks : Multiset (Nat × Nat)) = recordBlocks (k.timedWaiters recs)

section
variable {k k' : Kernel} {b b' : Threads} {recs recs' : List Nat} {m : Shade}

theorem Shade.Hides.free (hides : m.Hides k recs) (t : Nat) : m.Free t := by
  intro n h
  rw [hides.slice t] at h
  split at h
  · exact (Option.some.inj h).symm
  · cases h

theorem mem_sleepers {r : Nat} : r ∈ k.sleepers recs ↔ r ∈ recs ∧ (k.sleeping r).semaphore = 0 := by
  simp [Kernel.sleepers]

/-- Every list of nodes is a ring of some links. -/
theorem exists_ring (xs : List Nat) (nodup : xs.Nodup) (notNull : 0 ∉ xs) :
    ∃ l head, IsRing l head xs := by
  induction xs using List.reverseRecOn with
  | nil => exact ⟨⟨id, id⟩, 0, rfl⟩
  | append_singleton xs x ih =>
    obtain ⟨nodup', -, apart⟩ := List.nodup_append.mp nodup
    obtain ⟨l, head, ring⟩ := ih nodup' fun h => notNull (List.mem_append_left _ h)
    have fresh : x ∉ xs := fun h => apart x h x (List.mem_singleton_self x) rfl
    exact ⟨_, _, (ring_push ring fresh fun e => notNull (by simp [e])).1⟩

/-- The times of entries one tick apart. -/
theorem times_ones {xs : List (Nat × Nat)} (ones : ∀ x ∈ xs, x.2 = 1) {acc : Nat} {y : Nat × Nat}
    (mem : y ∈ times acc xs) : acc + 1 ≤ y.2 ∧ y.2 ≤ acc + xs.length := by
  induction xs generalizing acc with
  | nil => cases mem
  | cons x xs ih =>
    have one := ones x List.mem_cons_self
    simp only [times, List.mem_cons] at mem
    simp only [List.length_cons]
    rcases mem with rfl | mem
    · simp [one]
    · have := ih (fun x hx => ones x (List.mem_cons_of_mem _ hx)) mem
      omega

theorem exists_hides (alarms : k.Alarms recs) (short : recs.length < 2 ^ 64) :
    ∃ m : Shade, m.Hides k recs := by
  have ring := alarms.ring
  have sub : (k.sleepers recs).Sublist recs := List.filter_sublist
  obtain ⟨links, head, shaded⟩ := exists_ring (k.sleepers recs) (ring.nodup.sublist sub)
    fun h => ring.not_null (sub.subset h)
  refine ⟨⟨links, head, fun r => ⟨(k.sleeping r).thread, 0, 1⟩, fun t =>
    if ∃ r ∈ recs, (k.sleeping r).semaphore ≠ 0 ∧ (k.sleeping r).thread = t
    then some defaultTimeSlice else none,
    (k.timedWaiters recs).map fun r => (r, sizeInBlocks 40)⟩, shaded, fun _ _ => rfl, fun _ => rfl,
    fun x hx => ?_, fun _ => rfl, rfl⟩
  have ones : ∀ y ∈ entries (fun r => ⟨(k.sleeping r).thread, 0, 1⟩) (k.sleepers recs),
      y.2 = 1 := by
    intro y hy
    obtain ⟨r, -, rfl⟩ := List.mem_map.mp hy
    rfl
  have bounds := times_ones ones hx
  have len : (entries (fun r => ⟨(k.sleeping r).thread, 0, 1⟩) (k.sleepers recs)).length ≤
      recs.length := by
    rw [entries, List.length_map]
    exact sub.length_le
  omega

theorem records_split (k : Kernel) (recs : List Nat) :
    recordBlocks recs = recordBlocks (k.sleepers recs) + recordBlocks (k.timedWaiters recs) := by
  have split := Multiset.filter_add_not (fun r => (k.sleeping r).semaphore = 0)
    (recs : Multiset Nat)
  rw [Multiset.filter_coe, Multiset.filter_coe] at split
  have blocks := congrArg (Multiset.map fun r => (r, sizeInBlocks 40)) split
  rw [Multiset.map_add] at blocks
  exact blocks.symm

theorem shade_owned (hides : m.Hides k recs) :
    (k.shade m).view.owned (k.sleepers recs) = k.view.owned recs := by
  have user : ((k.hist.userBlocks ++ m.blocks : List (Nat × Nat)) : Multiset (Nat × Nat)) =
      k.hist.userBlocks + recordBlocks (k.timedWaiters recs) := by
    rw [← Multiset.coe_add, hides.blocks]
  rw [View.owned, View.owned, records_split k recs]
  show _ + ((k.bootBlocks : Multiset (Nat × Nat)) +
    ((k.hist.userBlocks ++ m.blocks : List (Nat × Nat)) : Multiset (Nat × Nat)) + _ + _ + _) =
    _ + ((k.bootBlocks : Multiset (Nat × Nat)) + _ + _ + _ + _)
  rw [user]
  show recordBlocks _ + (_ + (_ + _) + Multiset.map _ (k.hist.live : Multiset Nat) +
    Multiset.map k.view.stack (k.hist.live : Multiset Nat) +
      Multiset.map _ (k.hist.opened : Multiset Nat)) =
    _ + (_ + (k.hist.userBlocks : Multiset (Nat × Nat)) +
      Multiset.map _ (k.hist.live : Multiset Nat) + Multiset.map _ (k.hist.live : Multiset Nat) +
      Multiset.map _ (k.hist.opened : Multiset Nat))
  abel

/-- The kernel without its timed waits keeps the invariant. -/
theorem Kernel.Alert.inv (alert : k.Alert b recs) (hides : m.Hides k recs) :
    (k.shade m).Inv b (k.sleepers recs) := by
  refine ⟨⟨alert.rings, hides.ring, ?_, fun r _ => hides.untimed r, hides.range, alert.known,
    alert.main, ?_, alert.count⟩, ?_, alert.running, alert.placed⟩
  · intro t r
    constructor
    · intro here
      obtain ⟨hr, untimed, thread⟩ := alert.sleeps here
      have mem := mem_sleepers.mpr ⟨hr, untimed⟩
      exact ⟨mem, (hides.threads r mem).trans thread⟩
    · rintro ⟨mem, thread⟩
      obtain ⟨hr, untimed⟩ := mem_sleepers.mp mem
      have here := alert.asleep r hr untimed
      rwa [← hides.threads r mem, show (m.sleeping r).thread = t from thread] at here
  · intro t ht
    show (m.slice t).getD (k.slice t) = 1 ∨ (m.slice t).getD (k.slice t) = 2
    rw [hides.slice]
    split
    · exact Or.inr rfl
    · next plain =>
      have short : k.slice t ≤ 2 := alert.short ht
      have lasts : k.slice t ≠ 0 := fun zero => plain (alert.lasts ht zero)
      show k.slice t = 1 ∨ k.slice t = 2
      omega
  · rw [shade_owned hides]
    exact alert.holds

/-- A kernel is alert when it keeps the invariant without its timed waits, and these are sound. -/
theorem Shade.Hides.alert (hides : m.Hides k recs) (inv : (k.shade m).Inv b (k.sleepers recs))
    (alarms : k.Alarms recs) (once : (recs.map fun r => (k.sleeping r).thread).Nodup)
    (waiting : ∀ r ∈ recs, (k.sleeping r).semaphore ≠ 0 →
      b.loc (k.sleeping r).thread = some (.queue (.sem (k.sleeping r).semaphore)))
    (zero : ∀ r ∈ recs, (k.sleeping r).semaphore ≠ 0 → k.slice (k.sleeping r).thread = 0) :
    k.Alert b recs := by
  have owns : k.heap.Holds (k.view.owned recs) := by
    rw [← shade_owned hides]
    exact inv.owns
  have asleep : ∀ r ∈ recs, (k.sleeping r).semaphore = 0 →
      b.loc (k.sleeping r).thread = some (.spot (.asleep r)) := by
    intro r hr untimed
    have mem := mem_sleepers.mpr ⟨hr, untimed⟩
    have here := inv.places.sleeper mem
    rwa [show ((k.shade m).view.sleeping r).thread = (k.sleeping r).thread from
      hides.threads r mem] at here
  have known : ∀ {t}, b.loc t ≠ none → k.view.Thread t := inv.places.known
  -- the slice of a thread in no timed wait
  have plain : ∀ {t}, k.view.Thread t →
      (¬ ∃ r ∈ recs, (k.sleeping r).semaphore ≠ 0 ∧ (k.sleeping r).thread = t) →
      k.slice t = 1 ∨ k.slice t = 2 := by
    intro t ht plain
    have slices : (m.slice t).getD (k.slice t) = 1 ∨ (m.slice t).getD (k.slice t) = 2 :=
      inv.places.slices ht
    rwa [hides.slice, if_neg plain] at slices
  refine ⟨⟨⟨inv.places.rings, alarms, owns, once, asleep, fun r hr => ?_, waiting⟩, inv.running,
    thread_pos owns inv.current_thread, thread_pos owns (Or.inr rfl), inv.places.main,
    fun {t s} here => ?_, fun {t} ht => ?_⟩, known, inv.placed, fun {t r} here => ?_,
    fun {t} ht => ?_, fun {t} ht zero => ?_, inv.places.count⟩
  · refine thread_pos owns (known ?_)
    by_cases untimed : (k.sleeping r).semaphore = 0
    · rw [asleep r hr untimed]
      simp
    · rw [waiting r hr untimed]
      simp
  · constructor
    · intro none
      by_contra free
      have slices := plain (known (t := t) (by rw [here]; simp)) fun ⟨r, hr, _, thread⟩ =>
        free ⟨r, hr, thread⟩
      omega
    · rintro ⟨r, hr, rfl⟩
      refine zero r hr fun untimed => ?_
      rw [asleep r hr untimed] at here
      cases here
  · have out : ¬ ∃ r ∈ recs, (k.sleeping r).semaphore ≠ 0 ∧ (k.sleeping r).thread = t := by
      rintro ⟨r, hr, waits, rfl⟩
      rw [waiting r hr waits] at ht
      rcases ht with ht | ht | ht
      · cases ht
      · cases ht
      · have here := waiting r hr waits
        rw [ht] at here
        rcases inv.places.main here with h | h <;> simp at h
    have thread : k.view.Thread t := by
      rcases ht with ht | ht | ht
      · exact known (by rw [ht]; simp)
      · exact known (by rw [ht]; simp)
      · exact Or.inr ht
    have slices := plain thread out
    omega
  · obtain ⟨mem, thread⟩ := inv.places.asleep.mp here
    obtain ⟨hr, untimed⟩ := mem_sleepers.mp mem
    exact ⟨hr, untimed, (hides.threads r mem).symm.trans thread⟩
  · by_cases timed : ∃ r ∈ recs, (k.sleeping r).semaphore ≠ 0 ∧ (k.sleeping r).thread = t
    · obtain ⟨r, hr, waits, rfl⟩ := timed
      rw [zero r hr waits]
      decide
    · have slices := plain ht timed
      omega
  · by_contra free
    have slices := plain ht free
    omega

/-! ## Steps that look at the sleeping list -/

theorem Kernel.SameThreads.thread (same : k.SameThreads k') {t : Nat} :
    k'.view.Thread t ↔ k.view.Thread t := by
  show t ∈ k'.hist.live ∨ t = k'.scheduler.kernelMain ↔ _
  rw [same.live, same.main]
  exact Iff.rfl

/-- A kernel stays alert when no thread is lost. -/
theorem Kernel.Alert.moved (alert : k.Alert b recs) (same : k.SameThreads k')
    (timers : k'.Timers b' recs' k.view.kept)
    (loc : ∀ t, b'.loc t = b.loc t ∨ k.view.Thread t ∧ b'.loc t ≠ none)
    (sleeps : ∀ {t r}, b'.loc t = some (.spot (.asleep r)) →
      r ∈ recs' ∧ (k'.sleeping r).semaphore = 0 ∧ (k'.sleeping r).thread = t)
    (short : ∀ {t}, k.view.Thread t → k'.slice t ≤ 2)
    (lasts : ∀ {t}, k.view.Thread t → k'.slice t = 0 →
      ∃ r ∈ recs', (k'.sleeping r).semaphore ≠ 0 ∧ (k'.sleeping r).thread = t) :
    k'.Alert b' recs' := by
  refine ⟨by rwa [same.kept], fun {t} ht => ?_, fun {t} ht => ?_, sleeps,
    fun ht => short (same.thread.mp ht), fun ht => lasts (same.thread.mp ht), ?_⟩
  · rcases loc t with e | ⟨thread, -⟩
    · exact same.thread.mpr (alert.known (e ▸ ht))
    · exact same.thread.mpr thread
  · rcases loc t with e | ⟨-, placed⟩
    · rw [e]
      rw [same.live] at ht
      exact alert.placed ht
    · exact placed
  · rw [same.count, same.live]
    exact alert.count

/-- The current thread gives up the hart. -/
theorem Kernel.Alert.pass {p : Place QueueId Spot} {n : Nat} (alert : k.Alert b recs)
    (passed : k.Passed k' b b' p n) (same : k.SameThreads k')
    (timers : k'.Timers b' recs' k.view.kept)
    (records : ∀ r ∈ recs, r ∈ recs' ∧ (k'.sleeping r).thread = (k.sleeping r).thread ∧
      (k'.sleeping r).semaphore = (k.sleeping r).semaphore)
    (place : ∀ {r}, p = .spot (.asleep r) → r ∈ recs' ∧ (k'.sleeping r).semaphore = 0 ∧
      (k'.sleeping r).thread = k.scheduler.threadCurrent)
    (slice : ∀ {t}, t ≠ k.scheduler.threadCurrent → k'.slice t = k.slice t)
    (short : k'.slice k.scheduler.threadCurrent ≤ 2)
    (lasts : k'.slice k.scheduler.threadCurrent = 0 → ∃ r ∈ recs',
      (k'.sleeping r).semaphore ≠ 0 ∧ (k'.sleeping r).thread = k.scheduler.threadCurrent) :
    k'.Alert b' recs' := by
  have current : k.view.Thread k.scheduler.threadCurrent :=
    alert.known (by rw [alert.running.mpr rfl]; simp)
  have loc : ∀ t, b'.loc t = if t = n then some (.spot .running)
      else if t = k.scheduler.threadCurrent then some p else b.loc t := by
    intro t
    rw [passed.loc, update_apply, update_apply]
  refine alert.moved same timers (fun t => ?_) (fun {t r} here => ?_) (fun {t} ht => ?_)
    (fun {t} ht zero => ?_)
  · rw [loc]
    split
    · next next =>
      refine Or.inr ⟨?_, by simp⟩
      rw [next]
      rcases passed.next with ready | main | ⟨e, -⟩
      · exact alert.known (by rw [ready]; simp)
      · exact Or.inr main
      · exact e ▸ current
    · split
      · next mine => exact Or.inr ⟨mine ▸ current, by simp⟩
      · exact Or.inl rfl
  · rw [loc] at here
    split at here
    · cases here
    · split at here
      · next mine =>
        rw [mine]
        exact place (Option.some.inj here)
      · obtain ⟨hr, untimed, thread⟩ := alert.sleeps here
        obtain ⟨hr', owner, semaphore⟩ := records r hr
        exact ⟨hr', semaphore.trans untimed, owner.trans thread⟩
  · by_cases mine : t = k.scheduler.threadCurrent
    · rw [mine]
      exact short
    · rw [slice mine]
      exact alert.short ht
  · by_cases mine : t = k.scheduler.threadCurrent
    · rw [mine] at zero ⊢
      exact lasts zero
    · rw [slice mine] at zero
      obtain ⟨r, hr, waits, thread⟩ := alert.lasts ht zero
      obtain ⟨hr', owner, semaphore⟩ := records r hr
      exact ⟨r, hr', semaphore.trans_ne waits, owner.trans thread⟩

/-- Threads are made ready. -/
theorem Kernel.Alert.rouse {ts : List Nat} (alert : k.Alert b recs)
    (rouses : k.Rouses k' b b' recs recs' ts) (timers : k'.Timers b' recs' k.view.kept) :
    k'.Alert b' recs' := by
  refine alert.moved rouses.threads timers (fun t => ?_) (fun {t r} here => ?_) (fun {t} ht => ?_)
    (fun {t} ht zero => ?_)
  · rw [rouses.loc]
    split
    · next mem => exact Or.inr ⟨alert.known (rouses.placed t mem), by simp⟩
    · exact Or.inl rfl
  · rw [rouses.loc] at here
    split at here
    · cases here
    · next out =>
      obtain ⟨hr, untimed, thread⟩ := alert.sleeps here
      exact ⟨rouses.records r hr (thread ▸ out), (rouses.same r).2.trans untimed,
        (rouses.same r).1.trans thread⟩
  · rw [rouses.slice]
    split
    · decide
    · exact alert.short ht
  · rw [rouses.slice] at zero
    split at zero
    · cases zero
    · next out =>
      obtain ⟨r, hr, waits, thread⟩ := alert.lasts ht zero
      exact ⟨r, rouses.records r hr (thread ▸ out), (rouses.same r).2.trans_ne waits,
        (rouses.same r).1.trans thread⟩

theorem Kernel.Alert.current_slice (alert : k.Alert b recs) :
    k.slice k.scheduler.threadCurrent = 1 ∨ k.slice k.scheduler.threadCurrent = 2 := by
  have running := alert.running.mpr (rfl : k.scheduler.threadCurrent = _)
  have short := alert.short (alert.known (t := k.scheduler.threadCurrent) (by rw [running]; simp))
  have lasts := alert.slices (Or.inr (Or.inl running))
  omega

/-- **Dispatching.** -/
theorem dispatch_alert (alert : k.Alert b recs) : ∃ b', (dispatch k).Alert b' recs ∧
    k.SameThreads (dispatch k) ∧ k.KeepsAlarms (dispatch k) recs recs ∧
      ∀ t, b.loc t = some (.queue .ready) →
        b'.loc t = some (.queue .ready) ∨ b'.loc t = some (.spot .running) := by
  obtain ⟨b', n, passed, timers, keeps⟩ := dispatch_timers alert.timers
  have same : k.SameThreads (dispatch k) :=
    (schedulerPush_threads k k.scheduler.threadCurrent).trans (switch_threads _)
  have sleeping : (dispatch k).sleeping = k.sleeping :=
    (switch_sleepers (schedulerPush k k.scheduler.threadCurrent)).sleeping
  refine ⟨b', alert.pass passed same timers (fun r hr => ?_) (by simp) (fun {t} ht => ?_) ?_ ?_,
    same, keeps, fun t ready => ?_⟩
  · rw [sleeping]
    exact ⟨hr, rfl, rfl⟩
  · rw [dispatch_slice, update_of_ne ht]
  · rw [dispatch_slice, update_self]
  · rw [dispatch_slice, update_self]
    intro zero
    cases zero
  · rw [passed.loc, update_apply, update_apply]
    split
    · exact Or.inr rfl
    · split
      · exact Or.inl rfl
      · exact Or.inl ready

/-- **Sleeping.** -/
theorem sleep_alert {time : Nat} (alert : k.Alert b recs)
    (user : k.scheduler.threadCurrent ≠ k.scheduler.kernelMain)
    (room : k.heap.HasRoom (sizeInBlocks 40)) (pos : 1 ≤ time) (lt : time < 2 ^ 64) :
    ∃ k₁ b' recs', schedulerTimeout k k.scheduler.threadCurrent time 0 = .ok k₁ ∧
      (switch k₁).Alert b' recs' ∧ k.SameThreads (switch k₁) ∧
      k.KeepsAlarms (switch k₁) recs recs' := by
  obtain ⟨k₁, b', r, n, front, back, eq, put, passed, timers, keeps, -⟩ :=
    sleep_timers alert.timers user room pos lt
  have same : k₁.SameSleepers (switch k₁) := switch_sleepers k₁
  have slice : (switch k₁).slice = k.slice := by
    rw [switch_slice, put.frame]
    rfl
  have mine := alert.current_slice
  refine ⟨k₁, b', _, eq, alert.pass passed (put.threads.trans (switch_threads k₁)) timers
    (fun x hx => ?_) (fun {x} e => ?_) (fun _ => by rw [slice]) ?_ ?_,
    put.threads.trans (switch_threads k₁), keeps⟩
  · rw [same.sleeping]
    refine ⟨?_, put.others x hx⟩
    have hx : x ∈ front ++ back := put.split ▸ hx
    simp only [List.mem_append, List.mem_cons] at hx ⊢
    exact hx.imp id Or.inr
  · obtain rfl : r = x := by simpa using e
    rw [same.sleeping]
    exact ⟨by simp, put.semaphore, put.thread⟩
  · rw [slice]
    omega
  · rw [slice]
    omega

theorem marked_threads (k : Kernel) : k.SameThreads k.marked := by
  refine ⟨?_, kept_congr rfl rfl rfl rfl ?_, rfl, rfl, rfl, rfl, rfl⟩
  · funext t
    show (if t = k.scheduler.threadCurrent then k.hart.saved else (k.marked.thread t).saved) =
      if t = k.scheduler.threadCurrent then k.hart.saved else (k.thread t).saved
    split
    · rfl
    · next other =>
      show (update k.thread _ _ t).saved = _
      rw [update_of_ne other]
  · have view := modifyThread_view k k.scheduler.threadCurrent fun t => { t with timeLeft := 0 }
    exact (congrArg View.bp view).trans (update_eq_self _ k.view.bp)

theorem Kernel.Alert.opened_pos {s : Nat} (alert : k.Alert b recs) (opened : s ∈ k.hist.opened) :
    s ≠ 0 := by
  have owned : (s, sizeInBlocks 16) ∈ recordBlocks recs + k.view.kept := by
    simp [View.kept, Kernel.view, opened]
  exact (alert.holds.starts.2 _ owned).ne'

/-- **A timed wait** that blocks. -/
theorem semTimedWait_alert {s time : Nat} (alert : k.Alert b recs)
    (user : k.scheduler.threadCurrent ≠ k.scheduler.kernelMain) (opened : s ∈ k.hist.opened)
    (low : toI32 ((k.sem s).val - 1) < 0)
    (room : k.heap.HasRoom (sizeInBlocks 40)) (pos : 1 ≤ time) (lt : time < 2 ^ 64) :
    ∃ k' b' recs', semTimedWait k s time = .ok (1, k') ∧ k'.Alert b' recs' ∧ k.SameThreads k' ∧
      k.KeepsAlarms k' recs recs' ∧ k'.Alarm recs' k.scheduler.threadCurrent s time := by
  have nonzero := alert.opened_pos opened
  obtain ⟨k₁, k', b', r, n, front, back, put, rfl, run, passed, slice, -, timers, keeps, alarm⟩ :=
    semTimedWait_timers alert.timers user opened nonzero low room pos lt
  have waited : k₁.SameThreads (k₁.waited s) := ⟨rfl, rfl, rfl, rfl, rfl, rfl, rfl⟩
  have pushed : (switch (k₁.waited s)).SameThreads
      (semPush (switch (k₁.waited s)) s k.scheduler.threadCurrent) := by
    refine ⟨rfl, ?_, rfl, rfl, rfl, rfl, rfl⟩
    rw [semPush_view]
    rfl
  have same := (((marked_threads k).trans put.threads).trans waited).trans
    ((switch_threads (k₁.waited s)).trans pushed)
  have sleeping : (semPush (switch (k₁.waited s)) s k.scheduler.threadCurrent).sleeping =
      k₁.sleeping := (switch_sleepers (k₁.waited s)).sleeping
  refine ⟨_, b', _, run, alert.pass passed same timers (fun x hx => ?_) (by simp)
    (fun {t} ht => ?_) ?_ (fun _ => ?_), same, keeps, alarm⟩
  · rw [sleeping]
    refine ⟨?_, put.others x hx⟩
    have hx : x ∈ front ++ back := put.split ▸ hx
    simp only [List.mem_append, List.mem_cons] at hx ⊢
    exact hx.imp id Or.inr
  · rw [slice, update_of_ne ht]
  · rw [slice, update_self]
    decide
  · obtain ⟨⟨x, hx, thread, semaphore⟩, -⟩ := alarm
    exact ⟨x, hx, semaphore.trans_ne nonzero, thread⟩

/-- **Signalling.** -/
theorem semSignal_alert {s : Nat} (alert : k.Alert b recs) (opened : s ∈ k.hist.opened)
    (fits : k.Cancellable recs s) :
    ∃ r k' b' recs', semSignal k s = .ok (r, k') ∧ k'.Alert b' recs' ∧ k.SameThreads k' ∧
      ∀ {th s' n}, s' ≠ s → k.Alarm recs th s' n → k'.Alarm recs' th s' n := by
  obtain ⟨r, k', b', recs', run, timers, ⟨ts, rouses⟩, keeps⟩ :=
    semSignal_timers alert.timers opened fits
  exact ⟨r, k', b', recs', run, alert.rouse rouses timers, rouses.threads, keeps⟩

theorem spend_full (full : k.slice k.scheduler.threadCurrent = 2) :
    k.spend.slice = update k.slice k.scheduler.threadCurrent 1 := by
  rw [spend_slice, full]
  rfl

/-- The current thread spends the first tick of its slice. -/
theorem spend_alert (alert : k.Alert b recs) (full : k.slice k.scheduler.threadCurrent = 2) :
    k.spend.Alert b recs ∧ k.SameThreads k.spend ∧ k.KeepsAlarms k.spend recs recs := by
  have slice := spend_full full
  have sleepers : k.SameSleepers k.spend := ⟨rfl, rfl, rfl, rfl⟩
  have same : k.SameThreads k.spend := by
    have view := modifyThread_view k k.scheduler.threadCurrent
      fun t => { t with timeLeft := u64 (t.timeLeft - 1) }
    refine ⟨spend_saved k, kept_congr rfl rfl rfl rfl ?_, rfl, rfl, rfl, rfl, rfl⟩
    exact (congrArg View.bp view).trans (update_eq_self _ k.view.bp)
  have timers : k.spend.Timers b recs k.view.kept := by
    refine ⟨alert.timers.keep sleepers (alert.rings.congr _ rfl rfl rfl) fun _ _ => rfl,
      alert.running, alert.current, alert.kernelMain, alert.main, fun {t s} here => ?_,
      fun {t} ht => ?_⟩
    · have other : t ≠ k.scheduler.threadCurrent := by
        rintro rfl
        rw [alert.running.mpr rfl] at here
        cases here
      rw [slice, update_of_ne other]
      exact alert.marks here
    · rw [slice, update_apply]
      split
      · decide
      · exact alert.slices ht
  refine ⟨alert.moved same timers (fun _ => Or.inl rfl) alert.sleeps (fun {t} ht => ?_)
    (fun {t} ht zero => ?_), same, sleepers.keeps⟩
  · rw [slice, update_apply]
    split
    · decide
    · exact alert.short ht
  · rw [slice, update_apply] at zero
    split at zero
    · cases zero
    · exact alert.lasts ht zero

/-- **A tick.** -/
theorem handleTimer_alert (alert : k.Alert b recs) (alone : k.ExpireAlone b recs) :
    ∃ k' b' recs', handleTimer k = .ok k' ∧ k'.Alert b' recs' ∧ k.SameThreads k' ∧
      (∀ {th s n}, k.Alarm recs th s (n + 2) → k'.Alarm recs' th s (n + 1)) ∧
      (∀ {th s}, k.Alarm recs th s 1 → b'.loc th = some (.queue .ready) ∨
        b'.loc th = some (.spot .running)) := by
  obtain ⟨k₁, b₁, recs₁, ts, tick, timers, rouses, later, due⟩ := tick_timers alert.timers alone
  have alert₁ := alert.rouse rouses timers
  rw [handleTimer_ticked tick]
  rcases alert₁.current_slice with last | full
  · obtain ⟨b', alert', same, keeps, ready⟩ := dispatch_alert alert₁
    rw [last]
    exact ⟨_, b', recs₁, rfl, alert', rouses.threads.trans same, fun alarm => keeps (later alarm),
      fun alarm => ready _ (due alarm)⟩
  · obtain ⟨alert', same, keeps⟩ := spend_alert alert₁ full
    rw [full]
    exact ⟨_, b₁, recs₁, rfl, alert', rouses.threads.trans same, fun alarm => keeps (later alarm),
      fun alarm => Or.inl (due alarm)⟩

end

end RiscvKernel
