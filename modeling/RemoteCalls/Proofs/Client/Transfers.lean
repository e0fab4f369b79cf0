import RemoteCalls.Proofs.Client.Lifecycle
import RemoteCalls.Proofs.Client.Opening
import RemoteCalls.Proofs.Message.Atomicity

/-!
# RemoteCalls.Proofs.Client.Transfers

What a connection takes of a client's requests when writes may fail in the middle
and succeed again afterwards.

A request that could not be written fails its own call and nothing else: the
client stays as available as it was, and the next request is handed over whole.
So a connection that recovers behind a torn request may take another one behind
it (`request_behind_torn_one`), and the octets are messages with at most one
incomplete message behind them only as long as it does not.

Main statement: `requests_transferred`.
-/

namespace RemoteCalls

/-! ## Messages that are taken in part -/

/-- A message that is handed over to a connection, what the connection reports, and what it takes:
all of it if it reports nothing, and otherwise a part, but not all. -/
structure Transfer where
  message : Message
  fault : Option Fault
  taken : Bytes
  whole : fault = none → taken = message.encode
  cut : fault ≠ none → taken <+: message.encode ∧ taken ≠ message.encode

/-- A part of the message has been taken. -/
def Transfer.IsTorn (t : Transfer) : Prop := t.fault ≠ none ∧ t.taken ≠ []

/-- Octets that are these messages one after another, and then possibly the beginning of one
more. -/
def Message.Parses (limit : Nat) (messages : List Message) (bytes : Bytes) : Prop :=
  ∃ part, bytes = messages.flatMap encode ++ part ∧ (∀ m ∈ messages, m.Fits limit) ∧
    (part = [] ∨ ∃ m : Message, m.Fits limit ∧ part <+: m.encode ∧ part ≠ m.encode)

/-- Such octets are read as the messages and the end behind them. -/
theorem Message.Parses.receiveAll_eq {σ : Type} [ByteStream σ] {ending : Fault}
    (d : Delivery σ ending) {c : Codec σ} {messages : List Message} {bytes : Bytes}
    (h : Parses c.limit messages bytes) (hholds : d.Holds c.stream bytes)
    (harrived : d.Arrived c.stream) {fuel : Nat} (hfuel : messages.length < fuel) :
    receiveAll fuel c = (messages, some ending) := by
  obtain ⟨part, rfl, hfits, hpart⟩ := h
  have hends : ∃ cut, Ends c.limit ending part cut ending := by
    obtain rfl | ⟨m, hm, hbegun, hcut⟩ := hpart
    · exact ⟨none, .frame (.count (Nat.succ_pos 3))⟩
    · exact ends_of_prefix hm hbegun hcut
  obtain ⟨cut, hends⟩ := hends
  exact Message.receiveAll_eq d hholds harrived hfits hends hfuel

namespace Transfer

variable {limit : Nat} {ts : List Transfer}

theorem taken_prefix (t : Transfer) : t.taken <+: t.message.encode := by
  cases hfault : t.fault with
  | none => exact t.whole hfault ▸ List.prefix_rfl
  | some f => exact (t.cut (by simp [hfault])).1

/-- All of a message is taken just if the transfer succeeds. -/
theorem taken_eq_iff (t : Transfer) : t.taken = t.message.encode ↔ t.fault = none :=
  ⟨fun hall => by_contra fun hfault => (t.cut hfault).2 hall, t.whole⟩

/-- What a connection takes of a transfer is nothing only if the transfer fails. -/
theorem fault_ne_none {t : Transfer} (h : t.taken = []) : t.fault ≠ none := by
  intro hnone
  exact t.message.encode_ne_nil ((t.whole hnone).symm.trans h)

/-- Messages can be told apart as long as nothing is taken behind a torn one. -/
theorem parses (hfits : ∀ t ∈ ts, t.message.Fits limit)
    (hclean : ts.Pairwise fun t later => t.IsTorn → later.taken = []) :
    Message.Parses limit ((ts.filter (·.fault.isNone)).map message) (ts.flatMap taken) := by
  induction ts with
  | nil => exact ⟨[], rfl, by simp, .inl rfl⟩
  | cons t ts ih =>
      obtain ⟨hm, hlater⟩ := List.forall_mem_cons.mp hfits
      obtain ⟨hbehind, hclean⟩ := List.pairwise_cons.mp hclean
      by_cases htorn : t.IsTorn
      · -- The octets end here, and no later message has been taken whole.
        have hnothing : ts.flatMap taken = [] := by simpa using fun t' ht' => hbehind t' ht' htorn
        have hfailed : ts.filter (·.fault.isNone) = [] := by
          simpa using fun t' ht' => fault_ne_none (hbehind t' ht' htorn)
        obtain ⟨hbegun, hcut⟩ := t.cut htorn.1
        refine ⟨t.taken, ?_, ?_, .inr ⟨t.message, hm, hbegun, hcut⟩⟩
        · simp [hnothing, hfailed, htorn.1]
        · simp [hfailed, htorn.1]
      · obtain ⟨part, heq, hmessages, hpart⟩ := ih hlater hclean
        cases hfault : t.fault with
        | none =>
            refine ⟨part, ?_, ?_, hpart⟩
            · simp [hfault, t.whole hfault, heq]
            · simpa [hfault] using ⟨hm, by simpa using hmessages⟩
        | some f =>
            have hnone : t.taken = [] := by
              by_contra hsome
              exact htorn ⟨by simp [hfault], hsome⟩
            simpa [hfault, hnone] using ⟨part, heq, hmessages, hpart⟩

end Transfer

namespace Client

open Board

variable {σ ρ : Type}

/-! ## Whose request is written -/

/-- Whoever is about to write does so under the header of its own call. -/
def Addressed (c : Client σ ρ) : Prop :=
  ∀ (t : TaskId) id waits, c.tasks[t]? = some (.send id waits .writing) →
    ∃ call, c.board.call? id = some call ∧ c.header = requestHeader call

section Addressed

variable {c c' : Client σ ρ} {t : TaskId} {old next : Task}

/-- A step that leaves the header and what calls ask for, and in which nobody comes to write. -/
theorem Addressed.keep (h : c.Addressed) (hheader : c'.header = c.header)
    (hgrows : Grows c.board c'.board)
    (htasks : ∀ (t : TaskId) id waits, c'.tasks[t]? = some (.send id waits .writing) →
      c.tasks[t]? = some (.send id waits .writing)) : c'.Addressed := by
  intro t id waits htask
  obtain ⟨call, hcall, hsame⟩ := h t id waits (htasks t id waits htask)
  obtain ⟨call', hcall', hlabel⟩ := hgrows id call hcall
  exact ⟨call', hcall', by rw [hheader, hsame, requestHeader_eq_of_label hlabel]⟩

/-- A task that goes on, but not to write. -/
theorem writing_of_set (hnext : ∀ id waits, next ≠ .send id waits .writing) {t' : TaskId}
    {id : CallId} {waits : Bool}
    (htask : (c.tasks.set t next)[t']? = some (.send id waits .writing)) :
    t ≠ t' ∧ c.tasks[t']? = some (.send id waits .writing) := by
  rw [List.getElem?_set] at htask
  split at htask
  case isTrue =>
    split at htask
    · exact absurd (Option.some.inj htask) (hnext id waits)
    · contradiction
  case isFalse hne => exact ⟨hne, htask⟩

/-- A task that has just been begun is not about to write. -/
theorem writing_of_append (hnew : next.isInside = false) {t' : TaskId} {id : CallId} {waits : Bool}
    (htask : (c.tasks ++ [next])[t']? = some (.send id waits .writing)) :
    c.tasks[t']? = some (.send id waits .writing) := by
  rw [List.getElem?_append] at htask
  split at htask
  case isTrue => exact htask
  case isFalse =>
    rw [List.getElem?_singleton] at htask
    split at htask
    · obtain rfl := Option.some.inj htask
      contradiction
    · contradiction

/-- When the holder of the send lock goes on, but not to write, nobody is about to write. -/
theorem Locked.addressed_of_set (h : c.Locked) (htask : c.tasks[t]? = some old)
    (hinside : old.isInside = true) (hnext : ∀ id waits, next ≠ .send id waits .writing)
    (htasks : c'.tasks = c.tasks.set t next) : c'.Addressed := by
  intro t' id waits htask'
  rw [htasks] at htask'
  obtain ⟨hne, hbefore⟩ := writing_of_set hnext htask'
  have hout := h.outside_of_ne htask hinside hbefore hne
  contradiction

variable [ByteStream σ]

theorem Addressed.send (h : c.Addressed) (hlocked : c.Locked) {id : CallId} {call : Call ρ}
    {waits : Bool} {phase : SendPhase} {events : List (Event ρ)}
    (htask : c.tasks[t]? = some (.send id waits phase)) (hcall : c.board.call? id = some call)
    (hchange : SendChange c t id call waits phase events c') : c'.Addressed := by
  cases hchange with
  | enter =>
      exact h.keep rfl (grows_of_labels rfl) fun t' id' waits' htask' =>
        (writing_of_set (by simp) htask').2
  | address =>
      intro t' id' waits' htask'
      by_cases hsame : t = t'
      · subst hsame
        have hlt := (List.getElem?_eq_some_iff.mp htask).1
        obtain ⟨rfl, -⟩ : id = id' ∧ waits = waits' := by
          simpa [setTask, List.getElem?_set_self hlt] using htask'
        exact ⟨call, hcall, rfl⟩
      · have hother : c.tasks[t']? = some (.send id' waits' .writing) := by
          simpa [setTask, List.getElem?_set_ne hsame] using htask'
        have hout := hlocked.outside_of_ne htask rfl hother hsame
        contradiction
  | collect _ hpop =>
      obtain ⟨q, q', -, -, rfl⟩ := pop?_eq_some hpop
      exact h.keep rfl (grows_of_labels rfl) fun t' id' waits' htask' =>
        (writing_of_set (by simp) htask').2
  | leave =>
      refine hlocked.addressed_of_set htask rfl (fun id' waits' => ?_) rfl
      cases waits <;> simp
  | _ => exact hlocked.addressed_of_set htask rfl (by simp) rfl

theorem Addressed.receive (h : c.Addressed) {events : List (Event ρ)}
    (hchange : ReceiverChange c c.receiver events c') : c'.Addressed := by
  have htasks := hchange.tasks
  have hkeep (hheader : c'.header = c.header)
      (hlabels : c'.board.calls.map Call.label = c.board.calls.map Call.label) : c'.Addressed :=
    h.keep hheader (grows_of_labels hlabels) fun _ _ _ htask => htasks ▸ htask
  generalize c.receiver = place at hchange
  cases hchange with
  | matchError => exact hkeep rfl (label_setError ..)
  | replyFail => exact hkeep rfl (label_setError ..)
  | @reply _ _ id call _ after _ fault =>
      have hlabels := map_calls_modifyCall (g := Call.label)
        (f := ({ · with reply := after, error := (replyOutcome call.error fault).1 }))
        (fun _ => rfl) c.board id
      exact hkeep rfl hlabels
  | finish hfinish => exact hkeep rfl (label_finish hfinish)
  | terminate hfinish => exact hkeep rfl ((label_finish hfinish).trans (label_setError ..))
  | _ => exact hkeep rfl rfl

theorem Addressed.effect (h : c.Addressed) (hlocked : c.Locked) {move : Move ρ}
    (heffect : Effect c move c') : c'.Addressed := by
  cases heffect with
  | alone =>
      exact h.keep rfl (grows_addCall c.board _ _) fun _ _ _ htask => writing_of_append rfl htask
  | go => exact h.keep rfl (grows_addCall c.board c.board.queues _) fun _ _ _ htask =>
      writing_of_append rfl htask
  | close drops =>
      exact h.keep rfl (grows_of_labels rfl) fun _ _ _ htask => writing_of_append rfl htask
  | collect hpop =>
      obtain ⟨q, q', -, -, rfl⟩ := pop?_eq_some hpop
      exact h.keep rfl (grows_of_labels rfl) fun _ _ _ => id
  | send htask hcall hchange => exact h.send hlocked htask hcall hchange
  | passOver htask => exact hlocked.addressed_of_set htask rfl (by simp) rfl
  | closing _ hchange =>
      have hset {drops : Bool} {phase : ClosePhase} :
          ∀ id waits, Task.close drops phase ≠ .send id waits .writing := by simp
      cases hchange with
      | _ => exact h.keep rfl (grows_of_labels rfl) fun _ _ _ htask => (writing_of_set hset htask).2
  | receive hchange => exact h.receive hchange
  | _ => exact h.keep rfl (grows_of_labels rfl) fun _ _ _ => id

theorem Walk.addressed {outside : σ → σ → Prop} {codec : Codec σ} {p : Preamble}
    {log : List Log.Entry} {order : Registry.Order} {steps : List (Taken σ ρ)}
    (walk : Walk outside (Client.start codec p log order) steps c) : c.Addressed := by
  induction walk with
  | start => intro t id waits htask; simp [Client.start] at htask
  | step walk move h ih => exact ih.effect walk.locked (effect_of_step walk.holding.readsReply h)
  | outside walk stream _ ih => exact ih

end Addressed

/-! ## What a step hands over -/

variable [ByteStream σ]

/-- The request that is handed over in a step, and what the connection reports. -/
def Taken.handed? (s : Taken σ ρ) : Option (Message × Option Fault) :=
  match s.move with
  | .task t =>
      match s.before.tasks[t]? with
      | some (.send id _ .writing) =>
          (s.before.board.call? id).bind fun call =>
            (Message.ofWriting s.before.codec.limit (s.before.header, call.args)).map fun m =>
              (m, (ByteStream.write m.encode s.before.codec.stream).2)
      | _ => none
  | _ => none

omit [ByteStream σ] in
/-- A message is the request of the call whose thread goes on in a step: it has the call's service,
method and number, and what the call's own body writer leaves. -/
def Taken.IsOwnRequest (s : Taken σ ρ) (m : Message) : Prop :=
  ∃ t id waits call entries, s.move = .task t ∧
    s.before.tasks[t]? = some (.send id waits .writing) ∧ s.before.board.call? id = some call ∧
    m.header = requestHeader call ∧ Codec.bodyPayload call.args = (m.body, entries, none)

section Step

variable {c c' : Client σ ρ} {move : Move ρ}

/-- A thread that writes hands over its request if that can be written, and otherwise nothing. -/
theorem handed?_of_writing {t : TaskId} {id : CallId} {waits : Bool} {call : Call ρ}
    (htask : c.tasks[t]? = some (.send id waits .writing)) (hcall : c.board.call? id = some call) :
    Taken.handed? ⟨c, .task t⟩ =
      (Message.ofWriting c.codec.limit (c.header, call.args)).map fun m =>
        (m, (ByteStream.write m.encode c.codec.stream).2) := by
  simp only [Taken.handed?, htask, hcall, Option.bind_some]

/-- What is handed over is written by a thread. -/
theorem writing_of_handed? {s : Taken σ ρ} {m : Message} {fault : Option Fault}
    (h : s.handed? = some (m, fault)) :
    ∃ t id waits call, s.move = .task t ∧ s.before.tasks[t]? = some (.send id waits .writing) ∧
      s.before.board.call? id = some call ∧
      Message.ofWriting s.before.codec.limit (s.before.header, call.args) = some m := by
  unfold Taken.handed? at h
  split at h
  case h_2 => contradiction
  case h_1 t hmove =>
    split at h
    case h_2 => contradiction
    case h_1 id waits htask =>
      obtain ⟨call, hcall, hwritten⟩ := Option.bind_eq_some_iff.mp h
      obtain ⟨m', hm, heq⟩ := Option.map_eq_some_iff.mp hwritten
      obtain ⟨rfl, -⟩ := Prod.mk.inj heq
      exact ⟨t, id, waits, call, hmove, htask, hcall, hm⟩

/-- A connection that is handed a message takes all of it, or fails and takes a part. -/
theorem exists_transfer (u : Uptake σ) (m : Message) (s : σ) :
    ∃ t : Transfer, t.message = m ∧ t.fault = (ByteStream.write m.encode s).2 ∧
      u.taken (ByteStream.write m.encode s).1 = u.taken s ++ t.taken := by
  rcases hwrite : ByteStream.write m.encode s with ⟨s', fault⟩
  cases fault with
  | none => exact ⟨⟨m, none, m.encode, fun _ => rfl, by simp⟩, rfl, rfl, u.write_ok hwrite⟩
  | some f =>
      obtain ⟨part, hpart, hcut, htaken⟩ := u.write_fault m.encode_ne_nil hwrite
      exact ⟨⟨m, some f, part, by simp, fun _ => ⟨hpart, hcut⟩⟩, rfl, rfl, htaken⟩

/-- A step hands over nothing, or a message. -/
inductive Hands (u : Uptake σ) (s : Taken σ ρ) (after : σ) : Prop where
  | nothing (hnone : s.handed? = none) (hkept : u.taken after = u.taken s.before.codec.stream)
  | message (t : Transfer) (hsome : s.handed? = some (t.message, t.fault))
      (htaken : u.taken after = u.taken s.before.codec.stream ++ t.taken)

/-- A thread that writes hands over its request. -/
theorem hands_of_write (u : Uptake σ) (hlimit : c.codec.limit < Ty.countLimit) {t : TaskId}
    {id : CallId} {waits : Bool} {call : Call ρ} {codec : Codec σ} {entries : List Log.Entry}
    {fault : Option Fault} (htask : c.tasks[t]? = some (.send id waits .writing))
    (hcall : c.board.call? id = some call)
    (hwrite : c.codec.write c.header call.args = (codec, entries, fault)) :
    Hands u ⟨c, .task t⟩ codec.stream := by
  have hhanded := handed?_of_writing htask hcall
  cases hm : Message.ofWriting c.codec.limit (c.header, call.args) with
  | none =>
      obtain ⟨_, _, hfailed⟩ := Codec.write_of_ofWriting_eq_none hm
      obtain ⟨rfl, -⟩ := Prod.mk.inj (hfailed.symm.trans hwrite)
      rw [hm] at hhanded
      exact .nothing hhanded rfl
  | some m =>
      obtain ⟨_, hdone⟩ := Codec.write_of_ofWriting hlimit hm
      obtain ⟨rfl, -⟩ := Prod.mk.inj (hdone.symm.trans hwrite)
      obtain ⟨transfer, rfl, hfault, htaken⟩ := exists_transfer u m c.codec.stream
      rw [hm, Option.map_some, ← hfault] at hhanded
      exact .message transfer hhanded htaken

/-- What a step does to the connection is what it hands over, besides reading and closing. -/
theorem Effect.hands (u : Uptake σ) (hlimit : c.codec.limit < Ty.countLimit)
    (h : Effect c move c') : Hands u ⟨c, move⟩ c'.codec.stream := by
  cases h with
  | alone halone =>
      refine .nothing ?_ rfl
      cases move <;> first | rfl | contradiction
  | send htask hcall hchange =>
      cases hchange with
      | write hwrite => exact hands_of_write u hlimit htask hcall hwrite
      | fail hwrite => exact hands_of_write u hlimit htask hcall hwrite
      | _ => exact .nothing (by simp only [Taken.handed?, htask]) rfl
  | passOver htask => exact .nothing (by simp only [Taken.handed?, htask]) rfl
  | @closing t _ _ _ htask hchange =>
      have hnone : Taken.handed? ⟨c, .task t⟩ = none := by simp only [Taken.handed?, htask]
      exact .nothing hnone (hchange.taken_eq u)
  | receive hchange => exact .nothing rfl (hchange.taken_eq u)
  | _ => exact .nothing rfl rfl

/-- No step changes the limit on frames. -/
theorem Effect.limit_eq (h : Effect c move c') : c'.codec.limit = c.codec.limit := by
  cases h with
  | send _ _ hchange =>
      cases hchange with
      | write hwrite => exact (Codec.write_stream hwrite).1
      | fail hwrite => exact (Codec.write_stream hwrite).1
      | _ => rfl
  | closing _ hchange => cases hchange <;> rfl
  | receive hchange =>
      obtain hsame | ⟨stage, hread⟩ := hchange.codec_eq
      · rw [hsame]
      · rw [hread, Codec.resume, Frame.Progress.state_map]
  | _ => rfl

/-- A thread that sends a request does not change whether calls can be made, whatever becomes of the
request. -/
theorem Effect.isAvailable_of_send {t : TaskId} (h : Effect c (.task t) c') {id : CallId}
    {waits : Bool} {phase : SendPhase} (htask : c.tasks[t]? = some (.send id waits phase)) :
    c'.isAvailable = c.isAvailable := by
  simp only [isAvailable, Registry.isAvailable, h.closing_eq, h.shutdown_eq, Taken.passes,
    Taken.givesUp, htask, Bool.or_false]

end Step

section Walks

variable {outside : σ → σ → Prop} {codec : Codec σ} {p : Preamble} {log : List Log.Entry}
  {order : Registry.Order} {steps : List (Taken σ ρ)} {c : Client σ ρ}

theorem Walk.limit_eq (walk : Walk outside (Client.start codec p log order) steps c) :
    c.codec.limit = codec.limit := by
  induction walk with
  | start => rfl
  | step walk _ h ih => exact (effect_of_step walk.holding.readsReply h).limit_eq.trans ih
  | outside _ _ _ ih => exact ih

/-- What the connection takes in a walk is what it takes of the requests that are handed over, one
after another. -/
theorem Walk.transfers (u : Uptake σ) (hlimit : codec.limit < Ty.countLimit)
    (houtside : ∀ s s', outside s s' → u.taken s' = u.taken s)
    (walk : Walk outside (Client.start codec p log order) steps c) :
    ∃ ts : List Transfer, ts.map (fun t => (t.message, t.fault)) = steps.filterMap Taken.handed? ∧
      u.taken c.codec.stream = u.taken codec.stream ++ ts.flatMap Transfer.taken := by
  induction walk with
  | start => exact ⟨[], rfl, by simp [Client.start]⟩
  | step walk move h ih =>
      obtain ⟨ts, hts, htaken⟩ := ih
      cases (effect_of_step walk.holding.readsReply h).hands u (walk.limit_eq ▸ hlimit) with
      | nothing hnone hnothing =>
          refine ⟨ts, ?_, hnothing.trans htaken⟩
          rw [List.filterMap_append, hts]
          simp [hnone]
      | message t hsome hmore =>
          refine ⟨ts ++ [t], ?_, ?_⟩
          · rw [List.filterMap_append, List.map_append, hts]
            simp [hsome]
          · rw [hmore, htaken, List.flatMap_append, List.append_assoc]
            simp
  | outside _ _ hout ih =>
      obtain ⟨ts, hts, htaken⟩ := ih
      exact ⟨ts, hts, (houtside _ _ hout).trans htaken⟩

/-- What is handed over in a step is the request of the call whose thread goes on. -/
theorem Walk.isOwnRequest (hlimit : codec.limit < Ty.countLimit)
    (walk : Walk outside (Client.start codec p log order) steps c) {s : Taken σ ρ} (hs : s ∈ steps)
    {m : Message} {fault : Option Fault} (h : s.handed? = some (m, fault)) :
    s.IsOwnRequest m ∧ m.Fits codec.limit := by
  induction walk with
  | start => contradiction
  | outside _ _ _ ih => exact ih hs
  | step walk move _ ih =>
      obtain hbefore | rfl := List.mem_append.mp hs |>.imp_right List.mem_singleton.mp
      · exact ih hbefore
      · obtain ⟨t, id, waits, call, hmove, htask, hcall, hm⟩ := writing_of_handed? h
        obtain ⟨call', hcall', hheader⟩ := walk.addressed t id waits htask
        obtain rfl : call' = call := Option.some.inj (hcall'.symm.trans hcall)
        obtain ⟨⟨entries, hbody⟩, hmine, -⟩ := Message.ofWriting_eq_some hm
        rw [walk.limit_eq] at hm
        exact ⟨⟨t, id, waits, call', entries, hmove, htask, hcall, hmine.trans hheader, hbody⟩,
          Message.fits_of_ofWriting hlimit hm⟩

/-! ## Main statement -/

/-- In every run, on a connection whose writes may fail and succeed again, the connection takes one
after another: all of every request whose write succeeds, and a part of every other that is handed
over, which is the request of the call whose thread writes.  A thread that sends a request does not
change whether calls can be made, and hands its request over whatever has become of others.  The
octets taken are the requests written and at most an incomplete one behind them as long as nothing
is taken behind a torn request. -/
theorem requests_transferred (u : Uptake σ) (hlimit : codec.limit < Ty.countLimit)
    (houtside : ∀ s s', outside s s' → u.taken s' = u.taken s)
    (walk : Walk outside (start codec p log order) steps c) :
    ∃ ts : List Transfer,
      ts.map (fun t => (t.message, t.fault)) = steps.filterMap Taken.handed? ∧
      u.taken c.codec.stream = u.taken codec.stream ++ ts.flatMap Transfer.taken ∧
      (∀ s ∈ steps, ∀ m fault, s.handed? = some (m, fault) →
        s.IsOwnRequest m ∧ m.Fits codec.limit) ∧
      (∀ (t : TaskId) id waits phase c', c.tasks[t]? = some (.send id waits phase) →
        c.step (.task t) = .moved c' → c'.isAvailable = c.isAvailable) ∧
      (∀ (t : TaskId) id waits call m, c.tasks[t]? = some (.send id waits .writing) →
        c.board.call? id = some call →
        Message.ofWriting codec.limit (requestHeader call, call.args) = some m →
        ∃ c', c.step (.task t) = .moved c' ∧
          c'.codec.stream = (ByteStream.write m.encode c.codec.stream).1) ∧
      (ts.Pairwise (fun t later => t.IsTorn → later.taken = []) →
        Message.Parses codec.limit ((ts.filter (·.fault.isNone)).map (·.message))
          (ts.flatMap Transfer.taken)) := by
  obtain ⟨ts, hts, htaken⟩ := walk.transfers u hlimit houtside
  refine ⟨ts, hts, htaken, fun s hs m fault => walk.isOwnRequest hlimit hs, ?_, ?_, ?_⟩
  · intro t id waits phase c' htask h
    exact (effect_of_step walk.holding.readsReply h).isAvailable_of_send htask
  · intro t id waits call m htask hcall hm
    obtain ⟨call', hcall', hheader⟩ := walk.addressed t id waits htask
    obtain rfl : call' = call := Option.some.inj (hcall'.symm.trans hcall)
    rw [← hheader, ← walk.limit_eq] at hm
    obtain ⟨entries, hwrite⟩ := Codec.write_of_ofWriting (walk.limit_eq ▸ hlimit) hm
    rcases hput : ByteStream.write m.encode c.codec.stream with ⟨stream, fault⟩
    rw [hput] at hwrite
    simp only [step, stepTask, htask, hcall, stepSend, writeRequest, hwrite]
    cases fault <;> exact ⟨_, rfl, rfl⟩
  · refine Transfer.parses fun t ht => ?_
    have hmem : (t.message, t.fault) ∈ steps.filterMap Taken.handed? := hts ▸ List.mem_map_of_mem ht
    obtain ⟨s, hs, hhanded⟩ := List.mem_filterMap.mp hmem
    exact (walk.isOwnRequest hlimit hs hhanded).2

end Walks

/-- Two calls, of which the first one takes so many steps, and then the second one. -/
def twoRequests (first second : Nat) : List (Move Unit) :=
  [.go { reply := () } none, .go { reply := () } none] ++ List.replicate first (.task 0) ++
    List.replicate second (.task 1)

/-- A connection breaks in the middle of the second request, and the octets are the first one and a
part. -/
theorem requests_transferred_two_calls :
    ∃ (steps : List (Taken Faltering Unit)) (c : Client Faltering Unit) (first second : Message),
      Walk (fun _ _ => False)
        (start { stream := { script := [none, some (5, .system 104)] } } {} []) steps c ∧
      steps.filterMap Taken.handed? = [(first, none), (second, some (.system 104))] ∧
      Message.Parses defaultLimit [first] c.codec.stream.outgoing ∧
      c.codec.stream.outgoing.length = first.encode.length + 5 := by
  let first : Message := { header := { seq := 1 }, body := [] }
  let second : Message := { header := { seq := 2 }, body := [] }
  have hcourse : ((start { stream := ({ script := [none, some (5, .system 104)] } : Faltering) } {}
      []).course (twoRequests 5 7)).any
      (fun (steps, c) =>
        steps.filterMap Taken.handed? = [(first, none), (second, some (.system 104))] &&
          c.codec.stream.outgoing.length = first.encode.length + 5) = true := by
    decide +kernel
  obtain ⟨steps, c, walk, hchecks⟩ := exists_walk_of_course (fun _ _ => False) hcourse
  simp only [Bool.and_eq_true, decide_eq_true_eq] at hchecks
  obtain ⟨hhanded, hlength⟩ := hchecks
  refine ⟨steps, c, first, second, walk, hhanded, ?_, hlength⟩
  obtain ⟨ts, hts, htaken, -, -, -, hparses⟩ :=
    requests_transferred Faltering.uptake (by decide) (fun _ _ => False.elim) walk
  rw [hhanded] at hts
  obtain ⟨t, ts, rfl, ht, hts⟩ := List.map_eq_cons_iff.mp hts
  obtain ⟨u, ts, rfl, hu, hts⟩ := List.map_eq_cons_iff.mp hts
  obtain rfl := List.map_eq_nil_iff.mp hts
  obtain ⟨hfirst, hwhole⟩ := Prod.mk.inj ht
  obtain ⟨-, hfailed⟩ := Prod.mk.inj hu
  have hclean : [t, u].Pairwise fun t later => t.IsTorn → later.taken = [] := by
    simp [Transfer.IsTorn, hwhole]
  rw [show c.codec.stream.outgoing = _ from htaken]
  simpa [hwhole, hfailed, hfirst, start] using hparses hclean

/-- A connection breaks in the middle of the first request, and takes the second one whole.  The
client has not noticed, and the octets can no longer be told apart. -/
theorem request_behind_torn_one :
    ∃ (steps : List (Taken Faltering Unit)) (c : Client Faltering Unit) (torn behind : Message),
      Walk (fun _ _ => False)
        (start { stream := { script := [some (5, .system 104)] } } {} []) steps c ∧
      steps.filterMap Taken.handed? = [(torn, some (.system 104)), (behind, none)] ∧
      c.codec.stream.outgoing = torn.encode.take 5 ++ behind.encode ∧ c.isAvailable = true ∧
      ∀ messages, ¬ Message.Parses defaultLimit messages c.codec.stream.outgoing := by
  let torn : Message := { header := { seq := 1 }, body := [] }
  let behind : Message := { header := { seq := 2 }, body := [] }
  have hcourse : ((start { stream := ({ script := [some (5, .system 104)] } : Faltering) } {}
      []).course (twoRequests 7 5)).any
      (fun (steps, c) =>
        steps.filterMap Taken.handed? = [(torn, some (.system 104)), (behind, none)] &&
          c.codec.stream.outgoing = torn.encode.take 5 ++ behind.encode &&
          c.isAvailable) = true := by
    decide +kernel
  obtain ⟨steps, c, walk, hchecks⟩ := exists_walk_of_course (fun _ _ => False) hcourse
  simp only [Bool.and_eq_true, decide_eq_true_eq] at hchecks
  obtain ⟨⟨hhanded, houtgoing⟩, havailable⟩ := hchecks
  refine ⟨steps, c, torn, behind, walk, hhanded, houtgoing, havailable, fun messages hparses => ?_⟩
  -- The count of the torn header takes octets of the other request for a header.
  let codec : Codec MemoryStream :=
    { stream := { incoming := torn.encode.take 5 ++ behind.encode, ended := true } }
  have hinvalid : (codec.readHeader {}).bind (·.2.2) = some .invalidData := by decide +kernel
  have hread : Message.receiveAll (messages.length + 1) codec =
      (messages, some .connectionClosed) :=
    (houtgoing ▸ hparses).receiveAll_eq (MemoryStream.delivery .connectionClosed)
      ⟨rfl, rfl, rfl, rfl, rfl⟩ trivial (Nat.lt_succ_self _)
  obtain ⟨⟨codec', header, fault⟩, hheader, rfl⟩ := Option.bind_eq_some_iff.mp hinvalid
  simp [Message.receiveAll, hheader] at hread

end Client

end RemoteCalls
