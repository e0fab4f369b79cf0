import RemoteCalls.Proofs.Client.Requests
import RemoteCalls.Proofs.Client.Responses

/-!
# RemoteCalls.Proofs.Client.Rest

A client that has sent all it has to send and read all that has come.

Such a client writes and reads nothing more, whatever its threads do, unless a new
call is begun (`AtRest.change`).  The only thing that still happens to a call is
that it is lost with the connection (`Call.Lingers`).
-/

namespace RemoteCalls

/-! ## Connections without anything to read -/

/-- Nothing has come on a connection that is not read yet, and its end is reported as one. -/
structure MemoryStream.IsDrained (s : MemoryStream) : Prop where
  incoming : s.incoming = []
  endFault : s.endFault = some .connectionClosed

/-- A read gets the end of the connection, or has to wait. -/
theorem MemoryStream.read_of_isDrained {s : MemoryStream} (h : s.IsDrained) :
    ByteStream.read 4 s =
      if s.closed || s.ended then .done s [] (some .connectionClosed) else .waiting := by
  obtain ⟨incoming, consumed, ended, endFault, outgoing, writeFault, closeFault, closed⟩ := s
  obtain rfl : incoming = [] := h.incoming
  obtain rfl : endFault = some .connectionClosed := h.endFault
  cases closed <;> cases ended <;> rfl

/-- Closing such a connection leaves what has come and gone. -/
theorem MemoryStream.IsDrained.close {s : MemoryStream} (h : s.IsDrained) :
    (ByteStream.close s).1.IsDrained ∧ (ByteStream.close s).1.outgoing = s.outgoing ∧
      (ByteStream.close s).1.consumed = s.consumed := by
  simp only [ByteStream.close, MemoryStream.close]
  split <;> exact ⟨⟨h.incoming, h.endFault⟩, rfl, rfl⟩

/-- A frame is not begun on such a connection. -/
theorem Codec.resume_of_isDrained {c : Codec MemoryStream} (h : c.stream.IsDrained) :
    c.resume .size =
      if c.stream.closed || c.stream.ended then .done c (.error .connectionClosed)
      else .waiting .size c := by
  have hread := MemoryStream.read_of_isDrained h
  cases hgone : c.stream.closed || c.stream.ended <;>
  · rw [hgone] at hread
    simp only [resume, Frame.resume, hread]
    rfl

/-! ## Places without anything to do -/

/-- Whether a task has nothing more to send. -/
def Task.isSpent : Task → Bool
  | .send _ _ .leaving => true
  | .send _ _ .collecting => true
  | .send _ _ (.returned _) => true
  | .send _ _ _ => false
  | .close _ _ => true

/-- Whether the receiver waits for another response, or has stopped reading. -/
def Receiver.isLeaving : Receiver → Bool
  | .header .size => true
  | .stopping _ => true
  | .locking _ => true
  | .taking _ => true
  | .terminating _ _ => true
  | .unlocking => true
  | .exited => true
  | _ => false

theorem Receiver.eq_size_of_isLeaving {stage : Frame.Stage}
    (h : (Receiver.header stage).isLeaving = true) : stage = .size := by
  cases stage with
  | size => rfl
  | payload => contradiction

variable {ρ : Type}

/-- A call has been left alone between two states, or has been lost with the connection. -/
structure Call.Lingers (before after : Call ρ) : Prop where
  finished : before.finished = true → after = before
  reply : after.reply = before.reply
  lost : before.finished = false → after.finished = true →
    ∃ f, after.error = Client.connectionLost f

theorem Call.Lingers.refl (call : Call ρ) : call.Lingers call where
  finished _ := rfl
  reply := rfl
  lost hfalse htrue := by
    rw [hfalse] at htrue
    contradiction

theorem Call.Lingers.trans {first second third : Call ρ} (h : first.Lingers second)
    (h' : second.Lingers third) : first.Lingers third where
  finished hfinished := by
    obtain rfl := h.finished hfinished
    exact h'.finished hfinished
  reply := h'.reply.trans h.reply
  lost hfirst hthird := by
    cases hsecond : second.finished with
    | true =>
        obtain rfl := h'.finished hsecond
        exact h.lost hfirst hthird
    | false => exact h'.lost hsecond hthird

namespace Board

/-- All calls of a board have been left alone, or lost with the connection. -/
def Lingers (b b' : Board ρ) : Prop :=
  ∀ id call, b.call? id = some call → ∃ call', b'.call? id = some call' ∧ call.Lingers call'

theorem lingers_of_eq {b b' : Board ρ} (h : b'.calls = b.calls) : b.Lingers b' := by
  intro id call hcall
  rw [call?, ← h] at hcall
  exact ⟨call, hcall, .refl call⟩

theorem Lingers.trans {b b' b'' : Board ρ} (h : b.Lingers b') (h' : b'.Lingers b'') :
    b.Lingers b'' := by
  intro id call hcall
  obtain ⟨call', hcall', hfirst⟩ := h id call hcall
  obtain ⟨call'', hcall'', hsecond⟩ := h' id call' hcall'
  exact ⟨call'', hcall'', hfirst.trans hsecond⟩

/-- A call that is finished because its connection is gone is lost. -/
theorem lingers_finishWith {b b' : Board ρ} {id : CallId} {f : Fault}
    (h : b.finishWith (Client.connectionLost f) id = .moved b') : b.Lingers b' := by
  intro other before hbefore
  obtain ⟨hsame, hne⟩ := call?_finishWith h other
  by_cases heq : id = other
  · obtain ⟨call, hcall, hfinished, hafter⟩ := hsame heq
    obtain rfl := Option.some.inj (hbefore.symm.trans hcall)
    refine ⟨_, hafter, fun htrue => ?_, rfl, fun _ _ => ⟨f, rfl⟩⟩
    rw [htrue] at hfinished
    contradiction
  · exact ⟨before, (hne heq).trans hbefore, .refl before⟩

end Board

namespace Client

variable {events new : List (Event ρ)}

/-- A thread whose call has been sent has nothing more to send. -/
theorem Sent.isSpent {σ : Type} [ByteStream σ] {o : Outlet σ} {before part : Bytes}
    {messages : List Message} {c : Client σ ρ} (h : c.Sent o before events messages part)
    (hturns : c.Turns events) {id : CallId} {waits : Bool} {phase : SendPhase}
    (htask : .send id waits phase ∈ c.tasks) (hid : id ∈ sentCalls events)
    (hunsent : .unsent id ∉ events) : (Task.send id waits phase).isSpent = true := by
  obtain ⟨m, hm, r, -, hregistered, -⟩ := h.exists_message hid
  have hin : id ∈ (registrations events).map (·.1) := List.mem_map_of_mem hregistered
  -- Its message would have the latest number, which is that of a message still to be written.
  have hnever {call : Call ρ} (hcurrent : Current events c.board id call)
      (htowrite : (Task.send id waits phase).isToWrite = true) : False := by
    have hless := h.unused ⟨_, htask, htowrite⟩ m hm
    have hlast : (id, call.seq) ∈ registrations events := by
      obtain ⟨-, earlier, hlast⟩ := hcurrent
      simp [hlast]
    rw [hturns.records.seq_unique hregistered hlast, hcurrent.seq_eq hturns.records] at hless
    exact Nat.lt_irrefl _ hless
  have hready := hturns.ready _ htask
  cases phase with
  | entering => exact absurd hin hready
  | registering => exact absurd hin hready
  | addressing =>
      obtain ⟨call, hcurrent⟩ := hready
      exact (hnever hcurrent rfl).elim
  | writing =>
      obtain ⟨call, hcurrent, -⟩ := hready
      exact (hnever hcurrent rfl).elim
  | withdrawing f => exact absurd hready.1 hunsent
  | finishing other => exact hready.2.elim (absurd hin) (absurd · hunsent)
  | leaving => rfl
  | collecting => rfl
  | returned => rfl

/-- A client that has nothing to send and nothing to read. -/
structure AtRest (c : Client MemoryStream ρ) : Prop where
  tasks : ∀ task ∈ c.tasks, task.isSpent = true
  receiver : c.receiver.isLeaving = true
  stream : c.codec.stream.IsDrained

/-- A step after which a client is still at rest. -/
structure Rests (c : Client MemoryStream ρ) (new : List (Event ρ)) (c' : Client MemoryStream ρ) :
    Prop where
  rest : c'.AtRest
  outgoing : c'.codec.stream.outgoing = c.codec.stream.outgoing
  consumed : c'.codec.stream.consumed = c.codec.stream.consumed
  registrations : registrations new = []
  unsent : ∀ id, .unsent id ∉ new
  calls : c.board.Lingers c'.board

section AtRest

variable {c c' : Client MemoryStream ρ}

/-- A step that leaves the connection and all calls alone. -/
theorem AtRest.keep (h : c'.AtRest) (hcodec : c'.codec = c.codec)
    (hcalls : c'.board.calls = c.board.calls)
    (hregistered : Client.registrations new = []) (hunsent : ∀ id, .unsent id ∉ new) :
    c.Rests new c' where
  rest := h
  outgoing := by rw [hcodec]
  consumed := by rw [hcodec]
  registrations := hregistered
  unsent := hunsent
  calls := Board.lingers_of_eq hcalls

/-- A task that goes on and has nothing to send leaves none that has. -/
theorem AtRest.tasks_set (h : c.AtRest) {t : TaskId} {next : Task} (hnext : next.isSpent = true) :
    ∀ task ∈ c.tasks.set t next, task.isSpent = true := by
  intro task hmem
  obtain hold | rfl := List.mem_or_eq_of_mem_set hmem
  · exact h.tasks task hold
  · exact hnext

/-- The receiver gets the end of the connection, or goes on to give up the calls that are left. -/
theorem AtRest.receive (h : c.AtRest) (hchange : ReceiverChange c c.receiver new c') :
    c.Rests new c' := by
  have hleaving := h.receiver
  generalize c.receiver = place at hchange hleaving
  have hstays {place' : Receiver} {lock : Option Holder} {log : List Log.Entry}
      (hplace : place'.isLeaving = true) :
      AtRest { c with receiver := place', lock, receiverLog := log } :=
    ⟨h.tasks, hplace, h.stream⟩
  have hdone {codec : Codec MemoryStream} {result : Except Fault Bytes}
      (hread : c.codec.resume .size = .done codec result) :
      codec = c.codec ∧ result = .error .connectionClosed := by
    rw [Codec.resume_of_isDrained h.stream] at hread
    split at hread
    · obtain ⟨rfl, rfl⟩ := Frame.Progress.done.inj hread
      exact ⟨rfl, rfl⟩
    · contradiction
  cases hchange with
  | headerWait hread hnew =>
      obtain rfl := Receiver.eq_size_of_isLeaving hleaving
      rw [Codec.resume_of_isDrained h.stream] at hread
      split at hread
      · contradiction
      · exact absurd (Frame.Progress.waiting.inj hread).1.symm hnew
  | headerFail hread =>
      obtain rfl := Receiver.eq_size_of_isLeaving hleaving
      obtain ⟨rfl, -⟩ := hdone hread
      exact (hstays rfl).keep rfl rfl rfl (by simp)
  | headerInvalid hread =>
      obtain rfl := Receiver.eq_size_of_isLeaving hleaving
      obtain ⟨-, hresult⟩ := hdone hread
      contradiction
  | header hread =>
      obtain rfl := Receiver.eq_size_of_isLeaving hleaving
      obtain ⟨-, hresult⟩ := hdone hread
      contradiction
  | report => exact (hstays rfl).keep rfl rfl rfl (by simp)
  | lock => exact (hstays rfl).keep rfl rfl rfl (by simp)
  | take => exact AtRest.keep ⟨h.tasks, rfl, h.stream⟩ rfl rfl rfl (by simp)
  | terminate hfinish =>
      exact ⟨⟨h.tasks, rfl, h.stream⟩, rfl, rfl, rfl, by simp, Board.lingers_finishWith hfinish⟩
  | terminated => exact (hstays rfl).keep rfl rfl rfl (by simp)
  | unlock => exact (hstays rfl).keep rfl rfl rfl (by simp)
  | _ => contradiction

/-- Whatever is done with a client at rest, it stays at rest unless a call is begun. -/
theorem AtRest.change (h : c.AtRest) (hchange : Change c new c') (hnew : requests new = []) :
    c.Rests new c' := by
  cases hchange with
  | queue => exact AtRest.keep ⟨h.tasks, h.receiver, h.stream⟩ rfl rfl rfl (by simp)
  | begin => contradiction
  | refuse => exact AtRest.keep ⟨h.tasks, h.receiver, h.stream⟩ rfl rfl rfl (by simp)
  | close drops =>
      refine AtRest.keep ⟨?_, h.receiver, h.stream⟩ rfl rfl rfl (by simp)
      exact List.forall_mem_append.mpr ⟨h.tasks, List.forall_mem_singleton.mpr rfl⟩
  | collect hpop =>
      obtain ⟨q, q', -, -, rfl⟩ := Board.pop?_eq_some hpop
      exact AtRest.keep ⟨h.tasks, h.receiver, h.stream⟩ rfl rfl rfl (by simp)
  | @send _ _ waits _ _ _ _ htask hcall hsend =>
      have hspent := h.tasks _ (List.mem_of_getElem? htask)
      cases hsend with
      | leave =>
          have hnext (id : CallId) : Task.isSpent
              (.send id waits (if waits then .collecting else .returned none)) = true := by
            cases waits <;> rfl
          exact AtRest.keep ⟨h.tasks_set (hnext _), h.receiver, h.stream⟩ rfl rfl rfl (by simp)
      | collect _ hpop =>
          obtain ⟨q, q', -, -, rfl⟩ := Board.pop?_eq_some hpop
          exact AtRest.keep ⟨h.tasks_set rfl, h.receiver, h.stream⟩ rfl rfl rfl (by simp)
      | _ => contradiction
  | closing htask hclose =>
      cases hclose with
      | shut =>
          obtain ⟨hdrained, houtgoing, hconsumed⟩ := h.stream.close
          exact ⟨⟨h.tasks_set rfl, h.receiver, hdrained⟩, houtgoing, hconsumed, rfl, by simp,
            Board.lingers_of_eq rfl⟩
      | _ => exact AtRest.keep ⟨h.tasks_set rfl, h.receiver, h.stream⟩ rfl rfl rfl (by simp)
  | receive hreceive => exact h.receive hreceive

/-- A receiver at rest has no header and reads no body. -/
theorem AtRest.ne_matching (h : c.AtRest) (header : Header) : c.receiver ≠ .matching header := by
  intro hat
  have hleaving := h.receiver
  rw [hat] at hleaving
  contradiction

theorem AtRest.readsReply (h : c.AtRest) : c.ReadsReply := by
  intro stage id hat
  have hleaving := h.receiver
  rw [hat] at hleaving
  contradiction

/-- Once its connection has ended, a receiver at rest comes to its end by itself. -/
theorem AtRest.exits {outside : MemoryStream → MemoryStream → Prop} {codec : Codec MemoryStream}
    {p : Preamble} {log : List Log.Entry} {order : Registry.Order} (h : c.AtRest)
    (run : Run outside (Client.start codec p log order) events c)
    (hfew : (registrations events).length < Registry.seqLimit)
    (hgone : c.codec.stream.closed || c.codec.stream.ended) (hroom : c.board.Roomy)
    (hlock : ∀ t, c.lock ≠ some (.task t)) :
    ∃ steps new c', c.trace (List.replicate steps .receive) = some (new, c') ∧
      c'.receiver = .exited := by
  have hturns := run.turns hfew
  have hleaving := h.receiver
  have hfree := hturns.lock_eq_none hlock
  cases hreading : c.receiver.isReading with
  | false =>
      have hgoes : c.Unhindered (MemoryStream.delivery .connectionClosed) _ :=
        ⟨hroom, hfree, 0, rfl, by simp [hreading]⟩
      exact run.exits (by decide) hfew hgoes
  | true =>
      have hat : c.receiver = .header .size := by
        cases hplace : c.receiver with
        | header stage =>
            rw [hplace] at hleaving
            rw [Receiver.eq_size_of_isLeaving hleaving]
        | _ => simp [hplace, Receiver.isReading, Receiver.isLeaving] at hleaving hreading
      have hstep : c.step .receive = .moved { c with receiver := .stopping .connectionClosed } := by
        simp only [step, stepReceiver, hat, stepFrame, Codec.resume_of_isDrained h.stream, hgone,
          if_true, onHeader, Header.receive]
      have hgoes : Unhindered (MemoryStream.delivery .connectionClosed)
          { c with receiver := .stopping .connectionClosed } _ :=
        ⟨hroom, fun _ => hfree (by rw [hat]; rfl), 0, rfl, Bool.noConfusion⟩
      have hfew' : (registrations (events ++ c.observe .receive)).length < Registry.seqLimit := by
        rw [registrations_append, observe, registrations_observeReceiver, List.append_nil]
        exact hfew
      obtain ⟨steps, new, c', htrace, hexited⟩ :=
        (run.step .receive hstep).exits (by decide) hfew' hgoes
      refine ⟨steps + 1, c.observe .receive ++ new, c', ?_, hexited⟩
      simp only [List.replicate_succ, Client.trace, hstep, htrace, Option.map_some]

end AtRest

end Client

end RemoteCalls
