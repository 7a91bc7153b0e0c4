import WebSocket.Message.Assembly

/-!
# What an assembly gives

Control frames pass through an assembly untouched and leave it as it was; every other frame gives a
message, nothing yet, or a fault.

## Main results

* `Assembly.feed_control`: a control frame comes out **as it went in**.
* `Assembly.control_of_feed`: nothing else comes out as a control frame.
-/

namespace WebSocket

namespace Assembly

/-- A **control frame** comes out as it went in. -/
theorem feed_control (a : Assembly) {f : Frame} (h : f.opcode.isControl = true) :
    a.feed f = (a, .ok (some (.control f))) := by
  unfold feed
  split <;> simp_all [Opcode.isControl]

/-- A piece of a message never gives a control frame. -/
theorem advance_ne_control (a : Assembly) (p : Pending) (fin : Bool) (g : Frame) :
    (a.advance p fin).2 ≠ .ok (some (.control g)) := by
  unfold advance
  split
  · exact nofun
  · split
    · unfold complete
      split <;> exact nofun
    · exact nofun

/-- What comes out as a control frame is **the frame that went in**. -/
theorem control_of_feed {a : Assembly} {f g : Frame}
    (h : (a.feed f).2 = .ok (some (.control g))) : f = g := by
  unfold feed at h
  split at h
  · cases h; rfl
  · cases h; rfl
  · cases h; rfl
  · cases h
  · exact absurd h (advance_ne_control _ _ _ _)
  · exact absurd h (advance_ne_control _ _ _ _)
  · exact absurd h (advance_ne_control _ _ _ _)
  · cases h
  · cases h

end Assembly

end WebSocket
