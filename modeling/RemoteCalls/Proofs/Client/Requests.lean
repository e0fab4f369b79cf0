import Mathlib.Data.List.Forall2
import RemoteCalls.Proofs.Client.Turns
import RemoteCalls.Proofs.Connection.Preamble
import RemoteCalls.Proofs.Message.Conversation

/-!
# RemoteCalls.Proofs.Client.Requests

What a client puts on its connection.

Threads write one at a time, under a header that is their call's own (`Turns`),
and a write that fails leaves at most the beginning of a message with nothing
behind it (`Outlet`).  So what the connection has taken is the opening record,
then the requests that have been written, in the order of their numbers, and then
possibly a part of one more (`Sent`).
-/

namespace RemoteCalls

/-- Reading a frame hands nothing on. -/
theorem Frame.resume_kept {σ : Type} [ByteStream σ] (o : Outlet σ) (limit : Nat) (stage : Stage)
    (i : Input σ) : o.Kept i.stream (resume limit stage i).state.stream :=
  resume_state (fun hkept hread => hkept.trans (o.read hread)) limit stage (.refl o i.stream)

/-- Reading hands nothing on, and leaves the limit on frames. -/
theorem Codec.resume_kept {σ : Type} [ByteStream σ] (o : Outlet σ) (c : Codec σ)
    (stage : Frame.Stage) :
    o.Kept c.stream (c.resume stage).state.stream ∧ (c.resume stage).state.limit = c.limit := by
  rw [resume, Frame.Progress.state_map]
  exact ⟨Frame.resume_kept o c.limit stage c.toInput, rfl⟩

/-- Whether a task holds the number under which it is yet to write its request. -/
def Task.isToWrite : Task → Bool
  | .send _ _ .addressing => true
  | .send _ _ .writing => true
  | _ => false

theorem Task.isInside_of_isToWrite {task : Task} (h : task.isToWrite = true) :
    task.isInside = true := by
  cases task with
  | send id waits phase => cases phase <;> first | rfl | contradiction
  | close drops phase => contradiction

namespace Client

open Board

variable {σ ρ : Type}

/-- A message is the request of a call that has been begun and registered: it carries the call's
service, method and number, no error, and what its own body writer leaves. -/
def IsRequest (events : List (Event ρ)) (id : CallId) (m : Message) : Prop :=
  ∃ r, (id, r) ∈ requests events ∧ (id, m.header.seq) ∈ registrations events ∧
    m.header.service = r.service ∧ m.header.method = r.method ∧ m.header.error = [] ∧
    ∃ entries, Codec.bodyPayload r.args = (m.body, entries, none)

theorem IsRequest.append {events : List (Event ρ)} {id : CallId} {m : Message}
    (h : IsRequest events id m) (new : List (Event ρ)) : IsRequest (events ++ new) id m := by
  obtain ⟨r, hbegun, hregistered, hrest⟩ := h
  refine ⟨r, ?_, ?_, hrest⟩
  · rw [requests_append]
    exact List.mem_append_left _ hbegun
  · rw [registrations_append]
    exact List.mem_append_left _ hregistered

/-- The beginning of a request that could not be written, but not all of it. -/
def IsPart (events : List (Event ρ)) (part : Bytes) : Prop :=
  ∃ id m, IsRequest events id m ∧ .unsent id ∈ events ∧ m.Fits defaultLimit ∧
    part <+: m.encode ∧ part ≠ m.encode

theorem IsPart.append {events : List (Event ρ)} {part : Bytes} (h : IsPart events part)
    (new : List (Event ρ)) : IsPart (events ++ new) part := by
  obtain ⟨id, m, hrequest, hunsent, hrest⟩ := h
  exact ⟨id, m, hrequest.append new, List.mem_append_left _ hunsent, hrest⟩

variable [ByteStream σ]

/-- A connection has taken `before`, these messages and this part of one more. -/
structure Sent (o : Outlet σ) (before : Bytes) (events : List (Event ρ)) (c : Client σ ρ)
    (messages : List Message) (part : Bytes) : Prop where
  limit : c.codec.limit = defaultLimit
  taken : o.taken c.codec.stream = before ++ (messages.flatMap Message.encode ++ part)
  written : List.Forall₂ (IsRequest events) (sentCalls events) messages
  rising : messages.Pairwise fun m m' => m.header.seq.toNat < m'.header.seq.toNat
  fits : ∀ m ∈ messages, m.Fits defaultLimit
  numbers : ∀ m ∈ messages, m.header.seq.toNat ≤ (registrations events).length
  /-- A thread that is yet to write has a number of its own. -/
  unused : (∃ task ∈ c.tasks, task.isToWrite = true) →
    ∀ m ∈ messages, m.header.seq.toNat < (registrations events).length
  cut : part = [] ∨ o.Broken c.codec.stream ∧ IsPart events part

section Sent

variable {o : Outlet σ} {before : Bytes} {events new : List (Event ρ)} {c c' : Client σ ρ}
  {messages : List Message} {part : Bytes}

/-- A step that writes nothing. -/
theorem Sent.keep (h : c.Sent o before events messages part)
    (hkept : o.Kept c.codec.stream c'.codec.stream) (hlimit : c'.codec.limit = c.codec.limit)
    (hnew : sentCalls new = [])
    (htowrite : (∃ task ∈ c'.tasks, task.isToWrite = true) →
      (∃ task ∈ c.tasks, task.isToWrite = true) ∨ 0 < (registrations new).length) :
    c'.Sent o before (events ++ new) messages part := by
  have hmore : (registrations events).length ≤ (registrations (events ++ new)).length := by
    rw [registrations_append, List.length_append]
    exact Nat.le_add_right ..
  refine ⟨hlimit.trans h.limit, hkept.1.trans h.taken, ?_, h.rising, h.fits, fun m hm => ?_,
    fun hnext m hm => ?_, h.cut.imp_right fun hbroken => ⟨hkept.2 hbroken.1, hbroken.2.append new⟩⟩
  · rw [sentCalls_append, hnew, List.append_nil]
    exact h.written.imp fun _ _ hrequest => hrequest.append new
  · exact Nat.le_trans (h.numbers m hm) hmore
  · cases htowrite hnext with
    | inl hbefore => exact Nat.lt_of_lt_of_le (h.unused hbefore m hm) hmore
    | inr hgrown =>
        have hle := h.numbers m hm
        rw [registrations_append, List.length_append]
        omega

/-- The request of every call that has been sent has been taken. -/
theorem Sent.exists_message (h : c.Sent o before events messages part) {id : CallId}
    (hid : id ∈ sentCalls events) : ∃ m ∈ messages, IsRequest events id m := by
  obtain ⟨j, hj, rfl⟩ := List.getElem_of_mem hid
  have hj' : j < messages.length := h.written.length_eq ▸ hj
  exact ⟨_, List.getElem_mem hj', h.written.get hj hj'⟩

/-- Every message that has been taken is the request of a call. -/
theorem Sent.exists_call (h : c.Sent o before events messages part) {m : Message}
    (hm : m ∈ messages) : ∃ id, IsRequest events id m := by
  obtain ⟨j, hj, rfl⟩ := List.getElem_of_mem hm
  have hj' : j < (sentCalls events).length := h.written.length_eq ▸ hj
  exact ⟨_, h.written.get hj' hj⟩

/-- Nothing is taken behind a part of a message. -/
theorem Sent.part_eq_nil (h : c.Sent o before events messages part) {bytes : Bytes} {stream : σ}
    (hbytes : bytes ≠ []) (hwrite : ByteStream.write bytes c.codec.stream = (stream, none)) :
    part = [] := by
  refine h.cut.resolve_right fun hbroken => ?_
  have hsame := (o.write_broken bytes hbroken.1).1
  rw [hwrite, o.write_ok hwrite] at hsame
  exact hbytes (List.append_right_eq_self.mp hsame)

omit [ByteStream σ] in
/-- When the holder of the send lock has written, no thread is to write. -/
theorem isToWrite_of_mem_set (hturns : c.Turns events) {t : TaskId} {old next : Task}
    (htask : c.tasks[t]? = some old) (hinside : old.isInside = true)
    (hnext : next.isToWrite = false) : ∀ task ∈ c.tasks.set t next, task.isToWrite = false := by
  intro task hmem
  obtain rfl | ⟨t', hne, htask'⟩ := eq_or_getElem?_of_mem_set hmem
  · exact hnext
  · have hout := hturns.outside_of_ne htask hinside htask' hne
    refine Bool.not_eq_true _ ▸ fun htrue => ?_
    rw [Task.isInside_of_isToWrite htrue] at hout
    contradiction

omit [ByteStream σ] in
/-- A call on the board asks for what it was begun with. -/
theorem request_of_call? (hcustody : c.Custody events) (hturns : c.Turns events) {id : CallId}
    {call : Call ρ} (hcall : c.board.call? id = some call) :
    ∃ r, (id, r) ∈ requests events ∧ call.asked = r.asked := by
  have hlt : id < c.board.calls.length := (List.getElem?_eq_some_iff.mp hcall).1
  have hbegun : id ∈ (requests events).map (·.1) := by
    rw [hcustody.begun]
    exact List.mem_range.mpr hlt
  obtain ⟨⟨id', r⟩, hr, rfl⟩ := List.mem_map.mp hbegun
  have hasked := hturns.records.asked _ hr
  rw [hcall] at hasked
  exact ⟨r, hr, Option.some.inj hasked⟩

omit [ByteStream σ] in
/-- A call is begun once, and asks for what it was begun with. -/
theorem Custody.request_unique (h : c.Custody events) {id : CallId} {r r' : Request ρ}
    (hr : (id, r) ∈ requests events) (hr' : (id, r') ∈ requests events) : r = r' := by
  have hnodup : ((requests events).map (·.1)).Nodup := h.begun ▸ List.nodup_range
  exact congrArg Prod.snd (List.inj_on_of_nodup_map hnodup hr hr' rfl)

omit [ByteStream σ] in
/-- The call that was registered last has the greatest number. -/
theorem Current.seq_eq {b : Board ρ} {id : CallId} {call : Call ρ} (h : Current events b id call)
    (hrecords : Records events b) : call.seq.toNat = (registrations events).length := by
  obtain ⟨-, earlier, hlast⟩ := h
  have hcounts := congrArg List.getLast? hrecords.counts
  rw [hlast, List.map_append, List.map_singleton, List.getLast?_concat, List.length_append,
    List.length_singleton, List.range'_concat, List.getLast?_concat,
    Option.some.injEq] at hcounts
  rw [hlast, List.length_append, List.length_singleton, Nat.add_comm]
  simpa using hcounts

omit [ByteStream σ] in
/-- The request that the holder of the send lock writes is its own, under the latest number. -/
theorem isRequest_of_current (hcustody : c.Custody events) (hturns : c.Turns events) {id : CallId}
    {call : Call ρ} (hcurrent : Current events c.board id call) {m : Message}
    (hheader : m.header = requestHeader call) {entries : List Log.Entry}
    (hbody : Codec.bodyPayload call.args = (m.body, entries, none)) :
    IsRequest events id m ∧ m.header.seq.toNat = (registrations events).length := by
  constructor
  · obtain ⟨hcall, earlier, hlast⟩ := hcurrent
    obtain ⟨r, hr, hasked⟩ := request_of_call? hcustody hturns hcall
    simp only [Call.asked, Request.asked, Prod.mk.injEq] at hasked
    obtain ⟨hservice, hmethod, hargs, -⟩ := hasked
    rw [hargs] at hbody
    refine ⟨r, hr, ?_, ?_, ?_, ?_, entries, hbody⟩
    · rw [hheader, hlast]
      simp [requestHeader]
    · rw [hheader]
      exact hservice
    · rw [hheader]
      exact hmethod
    · rw [hheader]
      rfl
  · have hseq := hcurrent.seq_eq hturns.records
    rw [hheader]
    exact hseq

/-- A request that is written stands behind all others. -/
theorem Sent.write (h : c.Sent o before events messages part) (hcustody : c.Custody events)
    (hturns : c.Turns events) {t : TaskId} {id : CallId} {call : Call ρ} {waits : Bool}
    {codec : Codec σ} {entries : List Log.Entry}
    (htask : c.tasks[t]? = some (.send id waits .writing)) (hcall : c.board.call? id = some call)
    (hwrite : c.codec.write c.header call.args = (codec, entries, none))
    (hcodec : c'.codec = codec)
    (htowrite : ∀ task ∈ c'.tasks, task.isToWrite = false) :
    ∃ messages' part', c'.Sent o before (events ++ [.sent id]) messages' part' := by
  have hlimit : c.codec.limit < Ty.countLimit := by
    rw [h.limit]
    decide
  obtain ⟨call', hcurrent, hheader⟩ := hturns.ready _ (List.mem_of_getElem? htask)
  obtain rfl : call' = call := by simpa [hcall] using hcurrent.1.symm
  obtain ⟨m, stream, hmine, hfits, hbody, hbytes, hsame⟩ := Message.write_ok hlimit hwrite
  obtain ⟨hrequest, hlast⟩ :=
    isRequest_of_current hcustody hturns hcurrent (hmine.trans hheader) hbody
  obtain rfl := h.part_eq_nil m.encode_ne_nil hbytes
  have hunused := h.unused ⟨_, List.mem_of_getElem? htask, rfl⟩
  have hregistered : registrations (events ++ [Event.sent id]) = registrations events := by
    simp [registrations]
  rw [hsame] at hcodec
  refine ⟨messages ++ [m], [], ?_, ?_, ?_, ?_, ?_, ?_, ?_, .inl rfl⟩
  · rw [hcodec]
    exact h.limit
  · rw [hcodec, o.write_ok hbytes, h.taken]
    simp
  · rw [sentCalls_append]
    refine List.rel_append (h.written.imp fun _ _ hrequest => hrequest.append _) ?_
    exact .cons (hrequest.append _) .nil
  · rw [List.pairwise_append]
    refine ⟨h.rising, List.pairwise_singleton .., fun m' hm' m'' hm'' => ?_⟩
    rw [List.mem_singleton.mp hm'', hlast]
    exact hunused m' hm'
  · rw [List.forall_mem_append, List.forall_mem_singleton]
    exact ⟨h.fits, h.limit ▸ hfits⟩
  · rw [List.forall_mem_append, List.forall_mem_singleton, hregistered]
    exact ⟨h.numbers, Nat.le_of_eq hlast⟩
  · rintro ⟨task, htask', htrue⟩
    rw [htowrite task htask'] at htrue
    contradiction

/-- A write that fails, and what the connection has taken of it. -/
theorem Sent.fail (h : c.Sent o before events messages part) (hcustody : c.Custody events)
    (hturns : c.Turns events) {t : TaskId} {id : CallId} {call : Call ρ} {waits : Bool}
    {codec : Codec σ} {entries : List Log.Entry} {f : Fault}
    (htask : c.tasks[t]? = some (.send id waits .writing)) (hcall : c.board.call? id = some call)
    (hwrite : c.codec.write c.header call.args = (codec, entries, some f))
    (hcodec : c'.codec = codec) :
    ∃ messages' part', c'.Sent o before (events ++ [.unsent id]) messages' part' := by
  have hlimit : c.codec.limit < Ty.countLimit := by
    rw [h.limit]
    decide
  have htowrite : ∃ task ∈ c.tasks, task.isToWrite = true := ⟨_, List.mem_of_getElem? htask, rfl⟩
  obtain ⟨call', hcurrent, hheader⟩ := hturns.ready _ (List.mem_of_getElem? htask)
  obtain rfl : call' = call := by simpa [hcall] using hcurrent.1.symm
  obtain hsame | ⟨m, stream, hmine, hfits, hbody, hbytes, hsame⟩ :=
    Message.write_fault hlimit hwrite
  · rw [hsame] at hcodec
    exact ⟨messages, part, h.keep (hcodec ▸ .refl o _) (by rw [hcodec]) rfl fun _ => .inl htowrite⟩
  · rw [hsame] at hcodec
    have hstream : c'.codec.stream = stream := by rw [hcodec]
    obtain ⟨hrequest, -⟩ :=
      isRequest_of_current hcustody hturns hcurrent (hmine.trans hheader) hbody
    obtain ⟨more, hmore, hne, htaken, hbroken⟩ := o.write_fault m.encode_ne_nil hbytes
    obtain rfl | ⟨hbefore, hpart⟩ := h.cut
    · -- What the connection has taken of this request is the part now.
      have hkept : c.Sent o before (events ++ [.unsent id]) messages [] :=
        h.keep (.refl o _) rfl rfl .inl
      refine ⟨messages, more, ?_, ?_, hkept.written, h.rising, h.fits, hkept.numbers,
        fun _ => hkept.unused htowrite, ?_⟩
      · rw [hcodec]
        exact h.limit
      · rw [hstream, htaken, h.taken, List.append_nil, List.append_assoc]
      · by_cases hnone : more = []
        · exact .inl hnone
        · exact .inr ⟨hstream ▸ hbroken hnone, id, m, hrequest.append _, by simp,
            h.limit ▸ hfits, hmore, hne⟩
    · -- The connection had failed before and has taken nothing.
      have hnothing := o.write_broken m.encode hbefore
      rw [hbytes] at hnothing
      have hkept : o.Kept c.codec.stream c'.codec.stream := by
        rw [hstream]
        exact ⟨hnothing.1, fun _ => hnothing.2⟩
      exact ⟨messages, part, h.keep hkept (by rw [hcodec]) rfl fun _ => .inl htowrite⟩

theorem Sent.send (h : c.Sent o before events messages part) (hcustody : c.Custody events)
    (hturns : c.Turns events) {t : TaskId} {id : CallId} {call : Call ρ} {waits : Bool}
    {phase : SendPhase} (htask : c.tasks[t]? = some (.send id waits phase))
    (hcall : c.board.call? id = some call) (hchange : SendChange c t id call waits phase new c') :
    ∃ messages' part', c'.Sent o before (events ++ new) messages' part' := by
  have hmem := List.mem_of_getElem? htask
  cases hchange with
  | register =>
      exact ⟨messages, part, h.keep (.refl o _) rfl rfl fun _ => .inr Nat.one_pos⟩
  | address =>
      exact ⟨messages, part, h.keep (.refl o _) rfl rfl fun _ => .inl ⟨_, hmem, rfl⟩⟩
  | write hwrite =>
      have hnone : ∀ task ∈ c.tasks.set t (.send id waits .leaving), task.isToWrite = false :=
        isToWrite_of_mem_set hturns htask rfl rfl
      exact h.write hcustody hturns htask hcall hwrite rfl hnone
  | fail hwrite => exact h.fail hcustody hturns htask hcall hwrite rfl
  | leave =>
      refine ⟨messages, part, h.keep (.refl o _) rfl rfl fun hnext =>
        .inl (exists_task_of_set htask ?_ hnext)⟩
      cases waits <;> exact Bool.noConfusion
  | _ =>
      exact ⟨messages, part, h.keep (.refl o _) rfl rfl fun hnext =>
        .inl (exists_task_of_set htask Bool.noConfusion hnext)⟩

theorem Sent.close (h : c.Sent o before events messages part) {t : TaskId} {drops : Bool}
    {phase : ClosePhase} (htask : c.tasks[t]? = some (.close drops phase))
    (hchange : CloseChange c t drops phase c') :
    c'.Sent o before (events ++ []) messages part := by
  cases hchange with
  | shut =>
      exact h.keep (o.close _) rfl rfl fun hnext =>
        .inl (exists_task_of_set htask Bool.noConfusion hnext)
  | _ =>
      exact h.keep (.refl o _) rfl rfl fun hnext =>
        .inl (exists_task_of_set htask Bool.noConfusion hnext)

/-- The receiver leaves the connection as it is, or reads from it. -/
theorem ReceiverChange.codec_eq {place : Receiver} (h : ReceiverChange c place new c') :
    c'.codec = c.codec ∨ ∃ stage, c'.codec = (c.codec.resume stage).state := by
  have hread {stage : Frame.Stage} {p : Frame.Progress (Codec σ)}
      (hread : c.codec.resume stage = p) : p.state = (c.codec.resume stage).state := by rw [hread]
  cases h with
  | headerWait hwait => exact .inr ⟨_, hread hwait⟩
  | headerFail hdone => exact .inr ⟨_, hread hdone⟩
  | headerInvalid hdone => exact .inr ⟨_, hread hdone⟩
  | header hdone => exact .inr ⟨_, hread hdone⟩
  | skipWait hwait => exact .inr ⟨_, hread hwait⟩
  | skipFail hdone => exact .inr ⟨_, hread hdone⟩
  | skip hdone => exact .inr ⟨_, hread hdone⟩
  | replyWait hwait => exact .inr ⟨_, hread hwait⟩
  | replyFail hdone => exact .inr ⟨_, hread hdone⟩
  | reply hdone => exact .inr ⟨_, hread hdone⟩
  | _ => exact .inl rfl

theorem Sent.receive (h : c.Sent o before events messages part)
    (hchange : ReceiverChange c c.receiver new c') :
    c'.Sent o before (events ++ new) messages part := by
  obtain ⟨hnew, htasks⟩ : sentCalls new = [] ∧ c'.tasks = c.tasks := by
    generalize c.receiver = place at hchange
    cases hchange <;> exact ⟨rfl, rfl⟩
  obtain hsame | ⟨stage, hread⟩ := hchange.codec_eq
  · exact h.keep (hsame ▸ .refl o _) (by rw [hsame]) hnew (htasks ▸ .inl)
  · have hkept := c.codec.resume_kept o stage
    rw [← hread] at hkept
    exact h.keep hkept.1 hkept.2 hnew (htasks ▸ .inl)

theorem Sent.change (h : c.Sent o before events messages part) (hcustody : c.Custody events)
    (hturns : c.Turns events) (hchange : Change c new c') :
    ∃ messages' part', c'.Sent o before (events ++ new) messages' part' := by
  have hadded {task : Task} (htask : task.isToWrite = false) :
      (∃ task' ∈ c.tasks ++ [task], task'.isToWrite = true) →
        ∃ task' ∈ c.tasks, task'.isToWrite = true := by
    rintro ⟨task', hmem, htrue⟩
    rw [List.mem_append, List.mem_singleton] at hmem
    obtain hold | rfl := hmem
    · exact ⟨task', hold, htrue⟩
    · rw [htask] at htrue
      contradiction
  cases hchange with
  | begin =>
      exact ⟨messages, part, h.keep (.refl o _) rfl rfl fun hnext => .inl (hadded rfl hnext)⟩
  | close drops =>
      exact ⟨messages, part, h.keep (.refl o _) rfl rfl fun hnext => .inl (hadded rfl hnext)⟩
  | send htask hcall hsend => exact h.send hcustody hturns htask hcall hsend
  | closing htask hclose => exact ⟨messages, part, h.close htask hclose⟩
  | receive hreceive => exact ⟨messages, part, h.receive hreceive⟩
  | _ => exact ⟨messages, part, h.keep (.refl o _) rfl rfl .inl⟩

end Sent

/-! ## The connection in one step -/

section Stream

variable {events new : List (Event ρ)} {c c' : Client σ ρ}

/-- What every read and every write of a connection keeps, every step of a client keeps that has no
thread that closes it. -/
theorem Change.stream {P : σ → Prop}
    (hread : ∀ {s s' : σ} {count : Nat} {got : Bytes} {fault : Option Fault}, P s →
      ByteStream.read count s = .done s' got fault → P s')
    (hwrite : ∀ {s : σ} (out : Bytes), P s → P (ByteStream.write out s).1)
    (h : Change c new c') (hsends : ∀ task ∈ c.tasks, task.own.isSome)
    (hbefore : P c.codec.stream) : P c'.codec.stream := by
  have hwritten {codec : Codec σ} {header : Header} {body : Option BodyWriter}
      {entries : List Log.Entry} {fault : Option Fault}
      (h : c.codec.write header body = (codec, entries, fault)) : P codec.stream := by
    obtain ⟨-, hsame | ⟨out, hstream⟩⟩ := Codec.write_stream h
    · exact hsame ▸ hbefore
    · exact hstream ▸ hwrite out hbefore
  cases h with
  | send _ _ hsend =>
      cases hsend with
      | write h => exact hwritten h
      | fail h => exact hwritten h
      | _ => exact hbefore
  | closing htask _ =>
      have hown := hsends _ (List.mem_of_getElem? htask)
      contradiction
  | receive hreceive =>
      obtain hsame | ⟨stage, hstate⟩ := hreceive.codec_eq
      · exact hsame ▸ hbefore
      · rw [hstate, Codec.resume, Frame.Progress.state_map]
        exact Frame.resume_state hread c.codec.limit stage hbefore
  | _ => exact hbefore

/-- A request that could not be written is that of a thread about to write it. -/
theorem Change.unsent (h : Change c new c') {id : CallId} (hmem : .unsent id ∈ new) :
    ∃ waits call codec entries f, .send id waits .writing ∈ c.tasks ∧
      c.board.call? id = some call ∧
      c.codec.write c.header call.args = (codec, entries, some f) := by
  cases h with
  | send htask hcall hsend =>
      cases hsend with
      | fail hwrite =>
          obtain rfl : id = _ := by simpa using hmem
          exact ⟨_, _, _, _, _, List.mem_of_getElem? htask, hcall, hwrite⟩
      | _ => simp at hmem
  | receive hreceive =>
      generalize c.receiver = place at hreceive
      cases hreceive <;> simp at hmem
  | _ => simp at hmem

end Stream

/-! ## Runs -/

section Runs

variable {o : Outlet σ} {outside : σ → σ → Prop} {stream : σ} {p : Preamble}
  {log : List Log.Entry} {order : Registry.Order} {events : List (Event ρ)} {c c₀ : Client σ ρ}

/-- In every run the connection takes messages one after another, and then possibly a part of one
more. -/
theorem Run.sent (houtside : ∀ s s', outside s s' → o.Kept s s')
    (run : Run outside (Client.start { stream } p log order) events c)
    (hfew : (registrations events).length < Registry.seqLimit) :
    ∃ messages part, c.Sent o (o.taken stream) events messages part := by
  induction run with
  | start =>
      refine ⟨[], [], rfl, ?_, .nil, .nil, ?_, ?_, ?_, .inl rfl⟩ <;> simp [Client.start]
  | step run move hstep ih =>
      have hbefore := few_of_append hfew
      have hcustody := run.custody hbefore
      obtain ⟨messages, part, hsent⟩ := ih hbefore
      exact hsent.change hcustody (run.turns hbefore)
        (change_of_step hcustody.numbered hcustody.readsReply hstep)
  | @outside events c _ stream' hout ih =>
      obtain ⟨messages, part, hsent⟩ := ih hfew
      have hkept : (c.withStream stream').Sent o _ (events ++ []) messages part :=
        hsent.keep (houtside _ _ hout) rfl rfl .inl
      rw [List.append_nil] at hkept
      exact ⟨messages, part, hkept⟩

/-- No call's request is written twice. -/
theorem Sent.nodup_sentCalls {before : Bytes} {messages : List Message} {part : Bytes}
    (h : c.Sent o before events messages part) (hturns : c.Turns events) :
    (sentCalls events).Nodup := by
  have hseq {id : CallId} {m m' : Message} (hm : IsRequest events id m)
      (hm' : IsRequest events id m') : m.header.seq = m'.header.seq := by
    obtain ⟨-, -, hregistered, -⟩ := hm
    obtain ⟨-, -, hregistered', -⟩ := hm'
    have hknown := hturns.records.known _ hregistered
    rw [hturns.records.known _ hregistered'] at hknown
    exact (Option.some.inj hknown).symm
  have hwritten := h.written
  have hrising := h.rising
  generalize sentCalls events = ids at hwritten ⊢
  clear h
  induction hwritten with
  | nil => exact List.nodup_nil
  | @cons id m ids messages hm hrest ih =>
      rw [List.pairwise_cons] at hrising
      refine List.nodup_cons.mpr ⟨fun hmem => ?_, ih hrising.2⟩
      obtain ⟨i, hlt, rfl⟩ := List.getElem_of_mem hmem
      have hlt' : i < messages.length := hrest.length_eq ▸ hlt
      have hsame := hseq hm (hrest.get hlt hlt')
      have hless := hrising.1 messages[i] (List.getElem_mem hlt')
      rw [hsame] at hless
      exact Nat.lt_irrefl _ hless

/-- A client that has been opened has written its record. -/
theorem opened_of_establish {factories : Catalog (σ → Codec σ)} {factory : σ → Codec σ}
    (hcodec : factories.find? p.codec = some factory)
    (h : establish factories p stream log order = .opened c₀) :
    ∃ stream', p.write stream = (stream', none) ∧ c₀ = start (factory stream') p log order := by
  rw [establish, hcodec] at h
  rcases hwrite : p.write stream with ⟨stream', fault⟩
  cases fault with
  | some f => simp [hwrite, refuse] at h
  | none =>
      simp only [hwrite, Opening.opened.injEq] at h
      exact ⟨stream', rfl, h.symm⟩

/-- **Requests arrive whole and in order.**  In every state of a client that has been opened with
the protocol's mark and this library's codec, its connection has taken the opening record, then the
requests of just the calls whose write succeeded, in the order of their numbers, and at most a part
of one more.  A peer that gets these octets reads the record and just these requests. -/
theorem requests_on_the_wire {factories : Catalog (σ → Codec σ)}
    (hcodec : factories.find? p.codec = some fun stream => { stream })
    (hmark : p.mark = protocolMark)
    (hopened : establish factories p stream log order = .opened c₀)
    (houtside : ∀ s s', outside s s' → o.Kept s s') (run : Run outside c₀ events c)
    (hfew : (registrations events).length < Registry.seqLimit) :
    ∃ (record : Bytes) (messages : List Message) (part : Bytes),
      p.encode = .ok record ∧
      o.taken c.codec.stream =
        o.taken stream ++ (record ++ (messages.flatMap Message.encode ++ part)) ∧
      List.Forall₂ (IsRequest events) (sentCalls events) messages ∧ (sentCalls events).Nodup ∧
      messages.Pairwise (fun m m' => m.header.seq.toNat < m'.header.seq.toNat) ∧
      (part = [] ∨ IsPart events part) ∧
      ∀ {τ : Type} [ByteStream τ] {ending : Fault} (d : Delivery τ ending) (s : τ) (old : Preamble),
        d.Arrived s → d.Holds s (record ++ (messages.flatMap Message.encode ++ part)) →
        ∃ s' result, Preamble.resume .size s = .done s' result ∧ old.receive result = (p, none) ∧
          ∀ fuel, messages.length < fuel →
            Message.receiveAll fuel { stream := s' } = (messages, some ending) := by
  obtain ⟨stream', hwrite, rfl⟩ := opened_of_establish hcodec hopened
  obtain ⟨hencode, hrecord, hframe, hfits⟩ := Preamble.write_ok hwrite
  obtain ⟨messages, part, h⟩ := run.sent houtside hfew
  refine ⟨Frame.encode p.octets, messages, part, hencode, ?_, h.written,
    h.nodup_sentCalls (run.turns hfew), h.rising, h.cut.imp_right And.right, ?_⟩
  · rw [h.taken, o.write_ok hrecord, List.append_assoc]
  · intro τ _ ending d s old harrived hholds
    obtain ⟨s', hread, hrest, hstill⟩ := Preamble.resume_encode d hframe harrived hholds
    have hends : ∃ cut, Message.Ends defaultLimit ending part cut ending := by
      obtain rfl | ⟨-, id, m, -, -, hm, hpart, hne⟩ := h.cut
      · exact ⟨none, .frame (.count (Nat.succ_pos 3))⟩
      · exact Message.ends_of_prefix hm hpart hne
    obtain ⟨cut, hends⟩ := hends
    exact ⟨s', _, hread, Preamble.receive_octets hfits hmark old, fun fuel hfuel =>
      Message.receiveAll_eq d (c := { stream := s' }) hrest hstill h.fits hends hfuel⟩

end Runs

/-- The call begun second sends first, and the connection fails in the middle of the third
request. -/
theorem requests_on_the_wire_three_calls :
    ∃ (c₀ c : Client Socket Unit) (events : List (Event Unit)) (record : Bytes)
      (messages : List Message) (part : Bytes),
      establish builtinCodecs {} { capacity := some (96, .connectionClosed) } [] = .opened c₀ ∧
      Run Socket.outlet.Kept c₀ events c ∧ sentCalls events = [1, 0] ∧ messages.length = 2 ∧
      c.codec.stream.outgoing.length = 96 ∧
      c.codec.stream.outgoing = record ++ (messages.flatMap Message.encode ++ part) := by
  have htrace : ∃ (c₀ c : Client Socket Unit) (events : List (Event Unit)),
      establish builtinCodecs {} { capacity := some (96, .connectionClosed) } [] = .opened c₀ ∧
      c₀.trace
        [.go { reply := () } none, .go { reply := () } none, .go { reply := () } none,
          .task 1, .task 1, .task 1, .task 1, .task 1, .task 0, .task 0, .task 0, .task 0, .task 0,
          .task 2, .task 2, .task 2, .task 2] = some (events, c) ∧
      registrations events = [(1, 1), (0, 2), (2, 3)] ∧ sentCalls events = [1, 0] ∧
      c.codec.stream.outgoing.length = 96 :=
    ⟨_, _, _, rfl, rfl, by decide +kernel, by decide +kernel, by decide +kernel⟩
  obtain ⟨c₀, c, events, hopened, htrace, hthree, hsent, hfull⟩ := htrace
  have run : Run Socket.outlet.Kept c₀ ([] ++ events) c := Run.start.trace htrace
  rw [List.nil_append] at run
  have hfew : (registrations events).length < Registry.seqLimit := by
    rw [hthree]
    decide
  obtain ⟨record, messages, part, -, htaken, hwritten, -⟩ :=
    requests_on_the_wire rfl rfl hopened (fun _ _ hkept => hkept) run hfew
  refine ⟨c₀, c, events, record, messages, part, hopened, run, hsent, ?_, hfull, htaken⟩
  rw [← hwritten.length_eq, hsent]
  rfl

end Client

end RemoteCalls
