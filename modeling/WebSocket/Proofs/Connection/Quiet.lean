import WebSocket.Connection.Schedule
import WebSocket.Proofs.Connection.Locking

/-!
# When everybody has to wait

A connection is quiet when no task can take its next action. Unless the transport has stalled,
nobody waits for the writer lock then: whoever holds it could go on. So the reader has ended, or it
waits for room in the event queue, or for bytes that have not come.

## Main results

* `Connection.holder_of_quiet`: in a quiet connection **nobody holds the lock**.
* `Connection.reader_of_quiet`: what the reader of a quiet connection waits for.
* `Connection.receiver_of_quiet`: what somebody who receives waits for.
-/

namespace WebSocket

namespace Connection

variable {c : Connection} {task : TaskId} {action : Action} {rest : Script}

/-- A task that cannot go on **has to wait** in front of its next action. -/
theorem perform_of_act (hnone : c.act task = none) (hscript : c.script task = action :: rest) :
    c.perform task action rest = none := by
  rw [act, hscript] at hnone
  dsimp only at hnone
  split at hnone
  · assumption
  · cases hnone

/-- In a quiet connection **no task can go on**, and everything that has come was read. -/
theorem act_of_quiet (hquiet : c.isQuiet = true) :
    c.transport.incoming = [] ∧ ∀ task, c.act task = none := by
  simp only [isQuiet, Bool.and_eq_true, List.all_eq_true, Option.isNone_iff_eq_none,
    List.isEmpty_iff] at hquiet
  obtain ⟨⟨⟨hincoming, -⟩, hreader⟩, hcalls⟩ := hquiet
  refine ⟨hincoming, fun task => ?_⟩
  cases task with
  | reader => exact hreader
  | call id =>
      cases hcall : c.call? id with
      | none => rw [act, script_call, hcall]; rfl
      | some call =>
          have hnone := hcalls call (mem_of_call? hcall)
          rwa [id_of_call? hcall] at hnone

/-- Whoever **gets the lock** goes on. -/
theorem perform_of_asksLock (hasks : action.asksLock = true)
    (hheld : (c.lock.acquire task).holder = some task) : c.perform task action rest ≠ none := by
  cases action with
  | lockWriter frames recovery =>
      simp only [perform, withLock, if_pos hheld, startWriting]
      split <;> exact Option.some_ne_none _
  | takeWriter =>
      simp only [perform, withLock, if_pos hheld, removeWriter]
      split <;> exact Option.some_ne_none _
  | _ => cases hasks

/-- Whoever **has the lock** goes on, unless the transport has stalled. -/
theorem perform_of_holdsLock (hholds : action.holdsLock = true)
    (hstalled : c.transport.stalled = false) : c.perform task action rest ≠ none := by
  have hdrain : ∀ {w recovery rest go}, (∀ c', go c' ≠ none) →
      c.drainWriter w recovery rest go ≠ none := by
    intro w recovery rest go hgo
    unfold drainWriter
    split
    · exact fun _ => Transport.write_ne_stalled hstalled ‹_›
    · exact Option.some_ne_none _
    · exact hgo _
  cases action with
  | feed frames recovery =>
      simp only [perform, feedFrame]
      split
      · exact Option.some_ne_none _
      · split
        · exact hdrain fun _ => Option.some_ne_none _
        · split
          · exact Option.some_ne_none _
          · cases frames <;> exact Option.some_ne_none _
  | flush recovery =>
      simp only [perform, flushWriter]
      split
      · exact Option.some_ne_none _
      · exact hdrain fun _ => Option.some_ne_none _
  | _ => cases hholds

/-- In a quiet connection **nobody holds the lock**, unless the transport has stalled. -/
theorem holder_of_quiet (hlocked : c.Locked) (hquiet : ∀ task, c.act task = none)
    (hstalled : c.transport.stalled = false) : c.lock.holder = none := by
  cases hholder : c.lock.holder with
  | none => rfl
  | some task =>
      have hheld : (c.lock.acquire task).holder = some task := by
        rwa [Lock.acquire_of_mem hlocked.sound (Lock.mem_queue_of_held hholder)]
      have hqueued := hlocked.queued task (Lock.mem_queue_of_held hholder)
      cases hscript : c.script task with
      | nil => rw [hscript] at hqueued; obtain h | h := hqueued <;> cases h
      | cons action rest =>
          have hnone := perform_of_act (hquiet task) hscript
          rw [hscript] at hqueued
          obtain hasks | hholds := hqueued
          · exact absurd hnone (perform_of_asksLock hasks hheld)
          · exact absurd hnone (perform_of_holdsLock hholds hstalled)

/-- Nobody **waits for the lock** in a quiet connection. -/
theorem not_asksLock_of_quiet (hlocked : c.Locked) (hquiet : ∀ task, c.act task = none)
    (hstalled : c.transport.stalled = false) (hscript : c.script task = action :: rest) :
    action.asksLock = false ∧ action.holdsLock = false := by
  have hnone := perform_of_act (hquiet task) hscript
  refine ⟨Bool.eq_false_iff.mpr fun hasks => ?_, Bool.eq_false_iff.mpr fun hholds => ?_⟩
  · refine perform_of_asksLock hasks ?_ hnone
    simp only [Lock.acquire, holder_of_quiet hlocked hquiet hstalled]
  · exact perform_of_holdsLock hholds hstalled hnone

/-- **What the reader of a quiet connection waits for**: nothing, since it has ended; room in the
event queue; or bytes that have not come. -/
theorem reader_of_quiet (hlocked : c.Locked) (h : c.Scripted) (hquiet : c.isQuiet = true)
    (hstalled : c.transport.stalled = false) :
    c.reader = [] ∨ (∃ item more, c.reader = .offer item :: more ∧ c.events ≠ []) ∨
      (c.reader = [.readFrame] ∧ c.codec.decode c.buffer = .incomplete ∧
        c.transport.ending = none) := by
  obtain ⟨hincoming, hact⟩ := act_of_quiet hquiet
  cases hreader : c.reader with
  | nil => exact Or.inl rfl
  | cons action rest =>
      have hscript : c.script .reader = action :: rest := hreader
      have hnone := perform_of_act (hact .reader) hscript
      obtain ⟨hasks, hholds⟩ := not_asksLock_of_quiet hlocked hact hstalled hscript
      have hwrites : ∀ {frames recovery}, ¬Writes frames recovery action := by
        intro frames recovery hw
        cases hw with
        | lock => cases hasks
        | feed => cases hholds
        | flush => cases hholds
      have hoffer : ∀ {item}, action = .offer item → c.events ≠ [] := by
        rintro item rfl hempty
        simp only [perform, offerEvent, hempty, List.length_nil, capacity] at hnone
        rw [if_pos (by omega)] at hnone
        cases hnone
      cases h.readerScript hscript with
      | reading =>
          simp only [perform, readNext] at hnone
          split at hnone
          · rename_i hd
            split at hnone
            · cases hnone
            · rename_i hend
              refine Or.inr (Or.inr ⟨rfl, hd, ?_⟩)
              simpa [Transport.isExhausted, hincoming] using hend
          · cases hnone
          · cases hnone
      | offering => exact Or.inr (Or.inl ⟨_, _, rfl, hoffer rfl⟩)
      | offeringLast => exact Or.inr (Or.inl ⟨_, _, rfl, hoffer rfl⟩)
      | answering =>
          simp only [perform] at hnone
          split at hnone <;> cases hnone
      | ponging _ hw => exact absurd hw hwrites
      | reporting =>
          simp only [perform, reportTo] at hnone
          split at hnone
          · cases hnone
          · split at hnone <;> cases hnone
      | claiming =>
          simp only [perform, claimCloseFrame] at hnone
          split at hnone <;> cases hnone
      | closing hw => exact absurd hw hwrites
      | releasing => cases hasks
      | shutting =>
          simp only [perform, shutTransport] at hnone
          split at hnone
          · exact absurd ‹_› (Transport.write_ne_stalled hstalled)
          · cases hnone
          · cases hnone
      | _ => cases hnone

/-- **What somebody who receives waits for** in a quiet connection: there are no events, and the
reader has not ended. -/
theorem receiver_of_quiet (hquiet : c.isQuiet = true) (hstage : c.stage = .running) {id : Nat}
    (hscript : c.script (.call id) = [.takeEvent]) : c.events = [] ∧ c.reader ≠ [] := by
  have hnone := perform_of_act ((act_of_quiet hquiet).2 (.call id)) hscript
  simp only [perform, hstage, nextEvent, ending] at hnone
  split at hnone
  · cases hnone
  · rename_i hevents
    split at hnone
    · cases hnone
    · rename_i hend
      exact ⟨hevents, fun hreader => hend (by rw [readerEnded, hreader]; rfl)⟩

end Connection

end WebSocket
