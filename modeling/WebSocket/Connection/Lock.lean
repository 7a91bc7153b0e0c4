/-!
# The writer lock

Whoever writes frames holds a lock while it does, so that the frames of one message stay together.
The lock is granted **first come, first served**: when it is given back, the task that has waited
longest holds it at once. So the tasks at the lock form one **queue**: the holder first, then those
who wait, in the order in which they came.

## Main results

* `Lock.queue_acquire`: who **asks for the lock** stands at the end of the queue.
* `Lock.queue_release`: when the lock is **given back**, the first one leaves the queue.
* `Lock.queue_leave`: who **goes away** leaves the queue, and all others stay in order.
-/

namespace WebSocket

/-- Who takes **steps** on a connection: its reader, or an operation in progress. -/
inductive TaskId where
  | reader
  | call (id : Nat)
  deriving DecidableEq, Repr, Inhabited

/-- A **lock**: who holds it, and who waits for it, the longest wait first. -/
structure Lock where
  holder : Option TaskId := none
  waiting : List TaskId := []
  deriving DecidableEq, Repr, Inhabited

namespace Lock

/-- The lock after a task has **asked for it**: the task holds it if nobody else does, and
otherwise waits at the end, or where it waits already. -/
def acquire (l : Lock) (task : TaskId) : Lock :=
  match l.holder with
  | none => { l with holder := some task }
  | some holder =>
    if holder = task ∨ task ∈ l.waiting then l
    else { l with waiting := l.waiting ++ [task] }

/-- The lock after its holder has **given it back**. -/
def release (l : Lock) : Lock :=
  match l.waiting with
  | [] => { l with holder := none }
  | next :: more => ⟨some next, more⟩

/-- The lock after a task has gone away, wherever it stood. -/
def leave (l : Lock) (task : TaskId) : Lock :=
  if l.holder = some task then l.release
  else { l with waiting := l.waiting.erase task }

/-! ### The queue at the lock -/

variable {l : Lock} {task : TaskId}

/-- Everybody at the lock, **the holder first**. -/
def queue (l : Lock) : List TaskId := l.holder.toList ++ l.waiting

/-- Nobody waits for a free lock, and nobody stands at the lock twice. -/
structure Sound (l : Lock) : Prop where
  waiting : l.holder = none → l.waiting = []
  nodup : l.queue.Nodup

theorem queue_of_free (h : l.Sound) (hfree : l.holder = none) : l.queue = [] := by
  rw [queue, hfree, h.waiting hfree]
  rfl

theorem queue_of_held {holder : TaskId} (hheld : l.holder = some holder) :
    l.queue = holder :: l.waiting := by
  rw [queue, hheld]
  rfl

theorem mem_queue_of_held (hheld : l.holder = some task) : task ∈ l.queue := by
  rw [queue_of_held hheld]
  exact List.mem_cons_self ..

/-- Who stands at the lock already keeps the place. -/
theorem acquire_of_mem (h : l.Sound) (hmem : task ∈ l.queue) : l.acquire task = l := by
  cases hholder : l.holder with
  | none =>
      rw [queue_of_free h hholder] at hmem
      cases hmem
  | some holder =>
      rw [queue_of_held hholder, List.mem_cons] at hmem
      simp only [acquire, hholder]
      rw [if_pos]
      exact hmem.imp Eq.symm id

/-- Asking for the lock does not take it away from its holder. -/
theorem holder_acquire {holder : TaskId} (hheld : l.holder = some holder) (task : TaskId) :
    (l.acquire task).holder = some holder := by
  simp only [acquire, hheld]
  split
  · exact hheld
  · rfl

/-- Who **asks for the lock** stands at the end of the queue. -/
theorem queue_acquire (h : l.Sound) (hmem : task ∉ l.queue) :
    (l.acquire task).queue = l.queue ++ [task] := by
  cases hholder : l.holder with
  | none =>
      have hwaiting := h.waiting hholder
      simp only [acquire, queue, hholder, hwaiting]
      rfl
  | some holder =>
      rw [queue_of_held hholder, List.mem_cons, not_or] at hmem
      have hnot : ¬(holder = task ∨ task ∈ l.waiting) := by
        rintro (heq | hwaits)
        · exact hmem.1 heq.symm
        · exact hmem.2 hwaits
      simp only [acquire, hholder, if_neg hnot]
      simp only [queue, hholder, List.append_assoc]

/-- When the lock is **given back**, the first one leaves the queue. -/
theorem queue_release (l : Lock) {holder : TaskId} (hheld : l.holder = some holder) :
    l.release.queue = l.queue.tail := by
  rw [queue_of_held hheld, List.tail_cons]
  unfold release queue
  cases l.waiting <;> rfl

theorem Sound.release (h : l.Sound) {holder : TaskId} (hheld : l.holder = some holder) :
    l.release.Sound := by
  refine ⟨?_, ?_⟩
  · unfold Lock.release
    cases l.waiting with
    | nil => exact fun _ => rfl
    | cons next more => exact nofun
  · rw [queue_release l hheld]
    exact h.nodup.tail

theorem Sound.acquire (h : l.Sound) (task : TaskId) : (l.acquire task).Sound := by
  by_cases hmem : task ∈ l.queue
  · rwa [acquire_of_mem h hmem]
  · refine ⟨?_, ?_⟩
    · unfold Lock.acquire
      cases hholder : l.holder with
      | none => exact nofun
      | some holder =>
          simp only
          split
          · rw [hholder]; exact nofun
          · exact nofun
    · rw [queue_acquire h hmem]
      exact List.nodup_append.mpr ⟨h.nodup, List.pairwise_singleton _ _, by
        rintro a ha b hb rfl
        exact hmem (List.mem_singleton.mp hb ▸ ha)⟩

/-- Who **goes away** leaves the queue; all others stay in order. -/
theorem queue_leave (h : l.Sound) (task : TaskId) : (l.leave task).queue = l.queue.erase task := by
  unfold leave
  by_cases hheld : l.holder = some task
  · rw [if_pos hheld, queue_release l hheld, queue_of_held hheld, List.erase_cons_head,
      List.tail_cons]
  · rw [if_neg hheld]
    cases hholder : l.holder with
    | none => simp only [queue, hholder, h.waiting hholder]; rfl
    | some holder =>
        have hne : holder ≠ task := fun heq => hheld (heq ▸ hholder)
        simp only [queue, hholder, Option.toList_some, List.singleton_append]
        rw [List.erase_cons_tail (by simpa using hne)]

theorem Sound.leave (h : l.Sound) (task : TaskId) : (l.leave task).Sound := by
  refine ⟨?_, ?_⟩
  · unfold Lock.leave
    split
    · rename_i hheld
      exact (h.release hheld).waiting
    · intro hfree
      simp only [h.waiting hfree]
      rfl
  · rw [queue_leave h]
    exact h.nodup.erase task

end Lock

end WebSocket
