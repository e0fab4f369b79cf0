import RemoteCalls.Proofs.Client.Turns
import RemoteCalls.Proofs.Message.Conversation

/-!
# RemoteCalls.Proofs.Client.Intake

What the receiver makes of the octets of its peer.

`Intake` says how far it has come: the messages read whole, and what there is of
the next one.  `Reading` ties that to where the receiver stands and to what the
connection still holds, and `Reads` to the history of a run.

A response whose body cannot be read any more still has a header, and its call is
looked for like any other's.  So responses are counted by their headers, and the
last of them may come with a fault in place of its body.
-/

namespace RemoteCalls

/-! ## Responses -/

/-- A response as it is read: its header, and its body or the fault of reading that. -/
structure Response where
  header : Header
  body : Except Fault Bytes

/-- A message as a response that has been read whole. -/
def Message.response (m : Message) : Response := ⟨m.header, .ok m.body⟩

/-- How far the reading of responses has come. -/
inductive Intake where
  /-- Messages have been read, and the header of one more if its body is still to be read. -/
  | reading (messages : List Message) (opened : Option Header)
  /-- Reading has ended behind these messages, and behind one more header if there was one. -/
  | ended (messages : List Message) (cut : Option Header) (fault : Fault)

namespace Intake

/-- The messages that have been read whole. -/
def messages : Intake → List Message
  | reading messages _ => messages
  | ended messages _ _ => messages

/-- The header whose body is still to be read. -/
def opened : Intake → Option Header
  | reading _ opened => opened
  | ended _ _ _ => none

/-- The fault that reading has ended with. -/
def fault : Intake → Option Fault
  | reading _ _ => none
  | ended _ _ fault => some fault

/-- The responses that have been read as far as they can be. -/
def responses : Intake → List Response
  | reading messages _ => messages.map Message.response
  | ended messages cut fault =>
      messages.map Message.response ++ cut.toList.map (⟨·, .error fault⟩)

@[simp] theorem header_responses_reading (messages : List Message) (opened : Option Header) :
    (reading messages opened).responses.map (·.header) = messages.map (·.header) := by
  simp [responses, Message.response]

@[simp] theorem header_responses_ended (messages : List Message) (cut : Option Header)
    (fault : Fault) : (ended messages cut fault).responses.map (·.header) =
      messages.map (·.header) ++ cut.toList := by
  simp [responses, Message.response, Function.comp_def]

end Intake

/-! ## Places of the receiver -/

/-- The stage at which the receiver goes on to read a header. -/
def Receiver.headerStage : Receiver → Option Frame.Stage
  | .header stage => some stage
  | .finishing _ none => some .size
  | _ => none

/-- The stage at which the receiver goes on to read a body. -/
def Receiver.bodyStage : Receiver → Option Frame.Stage
  | .skipping stage _ => some stage
  | .reply stage _ => some stage
  | _ => none

/-- Whether the receiver has stopped reading, with this fault as far as it still knows. -/
def Receiver.EndsWith (f : Fault) : Receiver → Prop
  | .finishing _ fault => fault = some f
  | .stopping g => g = f
  | .locking g => g = f
  | .taking g => g = f
  | .terminating g _ => g = f
  | .unlocking => True
  | .exited => True
  | _ => False

/-! ## Reading on -/

/-- Reading a frame ends with the end of the connection, or because the frame is too large. -/
theorem Frame.Broken.fault_eq {limit : Nat} {ending fault : Fault} {bytes : Bytes}
    (h : Broken limit ending bytes fault) : fault = ending ∨ fault = .objectTooLarge := by
  cases h with
  | count => exact .inl rfl
  | tooLarge => exact .inr rfl
  | payload => exact .inl rfl

namespace Client

variable {σ ρ : Type}

/-- Whatever a reader makes of a body, reading goes on behind it. -/
theorem replyOutcome_of_ofFrame {reader : Option (BodyReader ρ)} {reply after : ρ} {body : Bytes}
    {entries : List Log.Entry} {fault : Option Fault}
    (hbody : BodyReader.ofFrame reader reply body = (after, entries, fault)) (before : Status) :
    (replyOutcome before fault).2 = none := by
  cases reader with
  | none =>
      obtain ⟨-, hfault⟩ := Prod.mk.inj hbody
      obtain ⟨-, rfl⟩ := Prod.mk.inj hfault
      rfl
  | some read =>
      simp only [BodyReader.ofFrame] at hbody
      split at hbody
      all_goals
        simp only [Prod.mk.injEq] at hbody
        obtain ⟨-, -, rfl⟩ := hbody
        rfl

/-- A body that could not be read ends the receiver. -/
theorem replyOutcome_of_ne {f : Fault} (hne : f ≠ .bodyDecodeFailed) (before : Status) :
    replyOutcome before (some f) = (replyFailure .connectionFailure f, some f) := by
  cases f <;> first | rfl | contradiction

variable [ByteStream σ] {ending : Fault}

/-- Where the receiver stands in the octets of its peer. -/
inductive Reading (d : Delivery σ ending) (limit : Nat) (bytes : Bytes) (stream : σ) :
    Receiver → Intake → Prop where
  | header {place : Receiver} {stage : Frame.Stage} {messages : List Message} {left : Bytes}
      (hplace : place.headerStage = some stage) (hstage : stage.Valid limit)
      (hholds : d.Holds stream left)
      (hbytes : bytes = messages.flatMap Message.encode ++ (stage.taken ++ left)) :
      Reading d limit bytes stream place (.reading messages none)
  | matching {header : Header} {messages : List Message} {left : Bytes} (hheader : header.Fits)
      (hframe : Frame.Fits limit header.encode) (hholds : d.Holds stream left)
      (hbytes : bytes =
        messages.flatMap Message.encode ++ (Frame.encode header.encode ++ left)) :
      Reading d limit bytes stream (.matching header) (.reading messages none)
  | body {place : Receiver} {stage : Frame.Stage} {header : Header} {messages : List Message}
      {left : Bytes} (hplace : place.bodyStage = some stage) (hheader : header.Fits)
      (hframe : Frame.Fits limit header.encode) (hstage : stage.Valid limit)
      (hholds : d.Holds stream left)
      (hbytes : bytes = messages.flatMap Message.encode ++
        (Frame.encode header.encode ++ (stage.taken ++ left))) :
      Reading d limit bytes stream place (.reading messages (some header))
  | ended {place : Receiver} {messages : List Message} {cut : Option Header} {fault : Fault}
      {rest : Bytes} (hplace : place.EndsWith fault)
      (hbytes : bytes = messages.flatMap Message.encode ++ rest)
      (hends : Message.Ends limit ending rest cut fault) :
      Reading d limit bytes stream place (.ended messages cut fault)

/-- What the receiver has made of the octets of its peer, in a run in which nobody closes the
client. -/
structure Reads (d : Delivery σ ending) (limit : Nat) (bytes : Bytes) (events : List (Event ρ))
    (c : Client σ ρ) (i : Intake) : Prop where
  bounded : c.codec.limit = limit
  reading : Reading d limit bytes c.codec.stream c.receiver i
  fits : ∀ m ∈ i.messages, m.Fits limit
  headers : headersRead events = i.responses.map (·.header) ++ i.opened.toList
  bodies : bodiesRead events = i.messages.map (·.body)
  sends : ∀ task ∈ c.tasks, task.own.isSome

section Reads

variable {d : Delivery σ ending} {limit : Nat} {bytes : Bytes} {events new : List (Event ρ)}
  {c c' : Client σ ρ} {i : Intake}

theorem reads_start {codec : Codec σ} (hholds : d.Holds codec.stream bytes) (p : Preamble)
    (log : List Log.Entry) (order : Registry.Order) :
    Reads d codec.limit bytes [] (start codec p log order : Client σ ρ) (.reading [] none) where
  bounded := rfl
  reading := .header rfl (Frame.Stage.valid_size _) hholds rfl
  fits := by simp [Intake.messages]
  headers := rfl
  bodies := rfl
  sends := by simp [start]

/-! ### Steps that read nothing -/

/-- A step that leaves what is still to be read, and after which the receiver still means to read
what it meant to read before. -/
theorem Reads.keep (h : c.Reads d limit bytes events i)
    (hnew : headersRead new = [] ∧ bodiesRead new = [])
    (hbounded : c'.codec.limit = c.codec.limit)
    (hreading : Reading d limit bytes c'.codec.stream c'.receiver i)
    (hsends : ∀ task ∈ c'.tasks, task.own.isSome) : c'.Reads d limit bytes (events ++ new) i := by
  refine ⟨hbounded.trans h.bounded, hreading, h.fits, ?_, ?_, hsends⟩
  · rw [headersRead_append, hnew.1, List.append_nil]
    exact h.headers
  · rw [bodiesRead_append, hnew.2, List.append_nil]
    exact h.bodies

/-- What is still to be read is all that matters of a connection. -/
theorem Reading.restream {stream stream' : σ} {place : Receiver}
    (h : Reading d limit bytes stream place i)
    (hholds : ∀ left, d.Holds stream left → d.Holds stream' left) :
    Reading d limit bytes stream' place i := by
  cases h with
  | header hplace hstage hleft hbytes => exact .header hplace hstage (hholds _ hleft) hbytes
  | matching hheader hframe hleft hbytes => exact .matching hheader hframe (hholds _ hleft) hbytes
  | body hplace hheader hframe hstage hleft hbytes =>
      exact .body hplace hheader hframe hstage (hholds _ hleft) hbytes
  | ended hplace hbytes hends => exact .ended hplace hbytes hends

/-- A receiver that neither has a header nor reads a body may go on to where it does the same. -/
theorem Reading.pass {stream : σ} {place place' : Receiver}
    (h : Reading d limit bytes stream place i) (hmatching : ∀ header, place ≠ .matching header)
    (hbody : place.bodyStage = none)
    (hheader : ∀ stage, place.headerStage = some stage → place'.headerStage = some stage)
    (hended : ∀ f, place.EndsWith f → place'.EndsWith f) :
    Reading d limit bytes stream place' i := by
  cases h with
  | header hplace hstage hleft hbytes => exact .header (hheader _ hplace) hstage hleft hbytes
  | matching => exact absurd rfl (hmatching _)
  | body hplace => simp [hbody] at hplace
  | ended hplace hbytes hends => exact .ended (hended _ hplace) hbytes hends

/-! ### Reading a header -/

section Header

variable {stage : Frame.Stage} {codec : Codec σ}

/-- A receiver that reads a header has no fault and no header that is still open. -/
theorem Reading.of_header {stream : σ} (h : Reading d limit bytes stream (.header stage) i) :
    ∃ messages left, i = .reading messages none ∧ stage.Valid limit ∧ d.Holds stream left ∧
      bytes = messages.flatMap Message.encode ++ (stage.taken ++ left) := by
  cases h with
  | header hplace hstage hleft hbytes =>
      obtain rfl := Option.some.inj hplace
      exact ⟨_, _, rfl, hstage, hleft, hbytes⟩
  | body hplace => contradiction
  | ended hplace => exact hplace.elim

theorem Reads.headerWait (h : c.Reads d limit bytes events i) (hat : c.receiver = .header stage)
    {reached : Frame.Stage} (hread : c.codec.resume stage = .waiting reached codec) :
    Reads d limit bytes (events ++ []) { c with codec, receiver := .header reached } i := by
  obtain ⟨messages, left, rfl, hstage, hleft, hbytes⟩ := (hat ▸ h.reading).of_header
  obtain ⟨hbounded, -, hreached, rest, htaken, hrest⟩ :=
    Codec.resume_waiting d hleft (h.bounded ▸ hstage) hread
  refine h.keep ⟨rfl, rfl⟩ hbounded (.header rfl (h.bounded ▸ hreached) hrest ?_) h.sends
  rw [hbytes, htaken]

/-- A header that cannot be read ends the reading. -/
theorem Reads.headerFail (h : c.Reads d limit bytes events i) (hat : c.receiver = .header stage)
    {f : Fault} (hread : c.codec.resume stage = .done codec (.error f)) :
    ∃ messages, i = .reading messages none ∧
      Reads d limit bytes (events ++ []) { c with codec, receiver := .stopping f }
        (.ended messages none f) := by
  obtain ⟨messages, left, rfl, hstage, hleft, hbytes⟩ := (hat ▸ h.reading).of_header
  obtain ⟨hbounded, ⟨payload, rest, hok, -⟩ | ⟨f', herror, hbroken⟩⟩ :=
    Codec.resume_done d hleft (h.bounded ▸ hstage) hread
  · contradiction
  · obtain rfl := Except.error.inj herror
    refine ⟨messages, rfl, hbounded.trans h.bounded, ?_, h.fits, ?_, ?_, h.sends⟩
    · exact .ended rfl hbytes (.frame (h.bounded ▸ hbroken))
    · simpa [Intake.responses, Intake.opened] using h.headers
    · simpa [Intake.messages] using h.bodies

theorem Reads.headerInvalid (h : c.Reads d limit bytes events i)
    (hat : c.receiver = .header stage) {payload : Bytes} {header : Header} {f : Fault}
    (hread : c.codec.resume stage = .done codec (.ok payload))
    (hheader : Header.ofFrame {} payload = (header, some f)) :
    ∃ messages, i = .reading messages none ∧
      Reads d limit bytes (events ++ []) { c with codec, receiver := .stopping f }
        (.ended messages none f) := by
  obtain ⟨messages, left, rfl, hstage, hleft, hbytes⟩ := (hat ▸ h.reading).of_header
  obtain ⟨hbounded, ⟨payload', rest, hok, hfits, htaken, hrest, -⟩ | ⟨f', herror, -⟩⟩ :=
    Codec.resume_done d hleft (h.bounded ▸ hstage) hread
  · obtain rfl := Except.ok.inj hok
    obtain ⟨rfl, hnone⟩ := Header.ofFrame_fault hheader
    refine ⟨messages, rfl, hbounded.trans h.bounded, ?_, h.fits, ?_, ?_, h.sends⟩
    · exact .ended rfl hbytes (htaken ▸ .header rest (h.bounded ▸ hfits) hnone)
    · simpa [Intake.responses, Intake.opened] using h.headers
    · simpa [Intake.messages] using h.bodies
  · contradiction

theorem Reads.header (h : c.Reads d limit bytes events i) (hat : c.receiver = .header stage)
    {payload : Bytes} {header : Header}
    (hread : c.codec.resume stage = .done codec (.ok payload))
    (hheader : Header.ofFrame {} payload = (header, none)) :
    Reads d limit bytes (events ++ []) { c with codec, receiver := .matching header } i := by
  obtain ⟨messages, left, rfl, hstage, hleft, hbytes⟩ := (hat ▸ h.reading).of_header
  obtain ⟨hbounded, ⟨payload', rest, hok, hfits, htaken, hrest, -⟩ | ⟨f', herror, -⟩⟩ :=
    Codec.resume_done d hleft (h.bounded ▸ hstage) hread
  · obtain rfl := Except.ok.inj hok
    obtain ⟨rfl, hshort⟩ := Header.ofFrame_eq_iff.mp hheader
    refine h.keep ⟨rfl, rfl⟩ hbounded (.matching hshort (h.bounded ▸ hfits) hrest ?_) h.sends
    rw [hbytes, htaken]
  · contradiction

theorem Reads.of_matching (h : c.Reads d limit bytes events i) {header : Header}
    (hat : c.receiver = .matching header) : ∃ messages, i = .reading messages none := by
  have hreading := hat ▸ h.reading
  cases hreading with
  | header hplace => contradiction
  | matching => exact ⟨_, rfl⟩
  | body hplace => contradiction
  | ended hplace => exact hplace.elim

/-- A header whose call has been looked for is open until its body has been read. -/
theorem Reads.matched {messages : List Message}
    (h : c.Reads d limit bytes events (.reading messages none)) {header : Header}
    (hat : c.receiver = .matching header) (hcodec : c'.codec = c.codec)
    (hplace : c'.receiver.bodyStage = some .size) (htasks : c'.tasks = c.tasks) :
    c'.Reads d limit bytes (events ++ [.matched header]) (.reading messages (some header)) := by
  have hreading := hat ▸ h.reading
  cases hreading with
  | header hother => contradiction
  | matching hheader hframe hleft hbytes =>
      refine ⟨hcodec ▸ h.bounded, ?_, h.fits, ?_, ?_, htasks ▸ h.sends⟩
      · rw [hcodec]
        exact .body hplace hheader hframe (Frame.Stage.valid_size _) hleft hbytes
      · rw [headersRead_append, h.headers]
        simp [Intake.responses, Intake.opened, headersRead]
      · rw [bodiesRead_append, h.bodies]
        simp [Intake.messages, bodiesRead]

end Header

/-! ### Reading a body -/

section Body

variable {stage : Frame.Stage} {codec : Codec σ}

/-- A receiver that reads a body has the header in front of it. -/
theorem Reading.of_body {stream : σ} {place : Receiver} (h : Reading d limit bytes stream place i)
    (hplace : place.bodyStage = some stage) :
    ∃ messages header, i = .reading messages (some header) := by
  cases h with
  | header hother => cases place <;> contradiction
  | matching => contradiction
  | body => exact ⟨_, _, rfl⟩
  | ended hended => cases place <;> contradiction

variable {messages : List Message} {header : Header}

theorem Reading.body_left {stream : σ} {place : Receiver}
    (h : Reading d limit bytes stream place (.reading messages (some header)))
    (hplace : place.bodyStage = some stage) :
    ∃ left, header.Fits ∧ Frame.Fits limit header.encode ∧ stage.Valid limit ∧
      d.Holds stream left ∧ bytes = messages.flatMap Message.encode ++
        (Frame.encode header.encode ++ (stage.taken ++ left)) := by
  cases h with
  | body hat hheader hframe hstage hleft hbytes =>
      obtain rfl := Option.some.inj (hat.symm.trans hplace)
      exact ⟨_, hheader, hframe, hstage, hleft, hbytes⟩

theorem Reads.bodyWait (h : c.Reads d limit bytes events (.reading messages (some header)))
    (hat : c.receiver.bodyStage = some stage) {reached : Frame.Stage}
    (hread : c.codec.resume stage = .waiting reached codec) (hcodec : c'.codec = codec)
    (hplace : c'.receiver.bodyStage = some reached) (htasks : c'.tasks = c.tasks) :
    c'.Reads d limit bytes (events ++ []) (.reading messages (some header)) := by
  subst hcodec
  obtain ⟨left, hheader, hframe, hstage, hleft, hbytes⟩ := h.reading.body_left hat
  obtain ⟨hbounded, -, hreached, rest, htaken, hrest⟩ :=
    Codec.resume_waiting d hleft (h.bounded ▸ hstage) hread
  refine h.keep ⟨rfl, rfl⟩ hbounded
    (.body hplace hheader hframe (h.bounded ▸ hreached) hrest ?_) (htasks ▸ h.sends)
  rw [hbytes, htaken]

/-- A body that cannot be read is not one that its reader rejects. -/
theorem Reads.bodyFault_ne (h : c.Reads d limit bytes events (.reading messages (some header)))
    (hending : ending ≠ .bodyDecodeFailed) (hat : c.receiver.bodyStage = some stage) {f : Fault}
    (hread : c.codec.resume stage = .done codec (.error f)) : f ≠ .bodyDecodeFailed := by
  obtain ⟨left, -, -, hstage, hleft, -⟩ := h.reading.body_left hat
  obtain ⟨-, ⟨payload, rest, hok, -⟩ | ⟨f', herror, hbroken⟩⟩ :=
    Codec.resume_done d hleft (h.bounded ▸ hstage) hread
  · contradiction
  · obtain rfl := Except.error.inj herror
    obtain rfl | rfl := hbroken.fault_eq
    · exact hending
    · simp

/-- A body that cannot be read ends the reading behind its header. -/
theorem Reads.bodyFail (h : c.Reads d limit bytes events (.reading messages (some header)))
    (hat : c.receiver.bodyStage = some stage) {f : Fault}
    (hread : c.codec.resume stage = .done codec (.error f)) (hcodec : c'.codec = codec)
    (hplace : c'.receiver.EndsWith f) (htasks : c'.tasks = c.tasks) :
    c'.Reads d limit bytes (events ++ []) (.ended messages (some header) f) := by
  subst hcodec
  obtain ⟨left, hheader, hframe, hstage, hleft, hbytes⟩ := h.reading.body_left hat
  obtain ⟨hbounded, ⟨payload, rest, hok, -⟩ | ⟨f', herror, hbroken⟩⟩ :=
    Codec.resume_done d hleft (h.bounded ▸ hstage) hread
  · contradiction
  · obtain rfl := Except.error.inj herror
    refine ⟨hbounded.trans h.bounded, ?_, h.fits, ?_, ?_, htasks ▸ h.sends⟩
    · exact .ended hplace hbytes (.body hheader hframe (h.bounded ▸ hbroken))
    · simpa [Intake.responses, Intake.opened, Message.response] using h.headers
    · simpa [Intake.messages] using h.bodies

/-- A body that has been read makes a message of the header in front of it. -/
theorem Reads.body (h : c.Reads d limit bytes events (.reading messages (some header)))
    (hat : c.receiver.bodyStage = some stage) {body : Bytes}
    (hread : c.codec.resume stage = .done codec (.ok body)) (hcodec : c'.codec = codec)
    (hplace : c'.receiver.headerStage = some .size) (htasks : c'.tasks = c.tasks) :
    c'.Reads d limit bytes (events ++ [.consumed body])
      (.reading (messages ++ [⟨header, body⟩]) none) := by
  subst hcodec
  obtain ⟨left, hheader, hframe, hstage, hleft, hbytes⟩ := h.reading.body_left hat
  obtain ⟨hbounded, ⟨payload, rest, hok, hfits, htaken, hrest, -⟩ | ⟨f', herror, -⟩⟩ :=
    Codec.resume_done d hleft (h.bounded ▸ hstage) hread
  · obtain rfl := Except.ok.inj hok
    refine ⟨hbounded.trans h.bounded, ?_, ?_, ?_, ?_, htasks ▸ h.sends⟩
    · refine .header hplace (Frame.Stage.valid_size _) hrest ?_
      rw [hbytes, htaken]
      simp [Message.encode, Frame.Stage.taken]
    · exact List.forall_mem_append.mpr
        ⟨h.fits, List.forall_mem_singleton.mpr ⟨hheader, hframe, h.bounded ▸ hfits⟩⟩
    · rw [headersRead_append, h.headers]
      simp [Intake.responses, Intake.opened, Message.response, headersRead]
    · rw [bodiesRead_append, h.bodies]
      simp [Intake.messages, bodiesRead]
  · contradiction

end Body

/-! ### Other steps -/

theorem Reads.send (h : c.Reads d limit bytes events i) {t : TaskId} {id : CallId}
    {call : Call ρ} {waits : Bool} {phase : SendPhase}
    (hchange : SendChange c t id call waits phase new c') :
    c'.Reads d limit bytes (events ++ new) i := by
  have hsends (next : SendPhase) :
      ∀ task ∈ c.tasks.set t (.send id waits next), task.own.isSome := by
    intro task hmem
    obtain hold | rfl := List.mem_or_eq_of_mem_set hmem
    · exact h.sends task hold
    · rfl
  have hwritten {codec : Codec σ} {entries : List Log.Entry} {fault : Option Fault}
      (hwrite : c.codec.write c.header call.args = (codec, entries, fault)) :
      codec.limit = c.codec.limit ∧ Reading d limit bytes codec.stream c.receiver i :=
    have hkept := Codec.write_holds d hwrite
    ⟨hkept.1, h.reading.restream hkept.2⟩
  cases hchange with
  | write hwrite =>
      exact h.keep ⟨rfl, rfl⟩ (hwritten hwrite).1 (hwritten hwrite).2 (hsends _)
  | fail hwrite =>
      exact h.keep ⟨rfl, rfl⟩ (hwritten hwrite).1 (hwritten hwrite).2 (hsends _)
  | _ => exact h.keep ⟨rfl, rfl⟩ rfl h.reading (hsends _)

/-- A receiver that goes on without reading. -/
theorem Reads.pass (h : c.Reads d limit bytes events i)
    (hnew : headersRead new = [] ∧ bodiesRead new = []) (hcodec : c'.codec = c.codec)
    (htasks : c'.tasks = c.tasks) (hmatching : ∀ header, c.receiver ≠ .matching header)
    (hbody : c.receiver.bodyStage = none)
    (hheader : ∀ stage, c.receiver.headerStage = some stage →
      c'.receiver.headerStage = some stage)
    (hended : ∀ f, c.receiver.EndsWith f → c'.receiver.EndsWith f) :
    c'.Reads d limit bytes (events ++ new) i := by
  refine h.keep hnew (by rw [hcodec]) ?_ (htasks ▸ h.sends)
  rw [hcodec]
  exact h.reading.pass hmatching hbody hheader hended

/-! ### Messages and nothing else -/

/-- If the octets of the peer are those of messages, what has been read are the first of them. -/
theorem Reads.of_messages {all : List Message} (hall : ∀ m ∈ all, m.Fits limit)
    (h : c.Reads d limit (all.flatMap Message.encode) events i) :
    i.messages <+: all ∧ headersRead events <+: all.map (·.header) := by
  have hfits := h.fits
  have hreading := h.reading
  rw [h.headers]
  clear h
  generalize c.receiver = place at hreading
  cases hreading with
  | header _ _ _ hbytes =>
      obtain ⟨more, rfl, -⟩ := Message.prefix_of_flatMap hfits hall hbytes
      simp [Intake.messages, Intake.opened]
  | matching _ _ _ hbytes =>
      obtain ⟨more, rfl, -⟩ := Message.prefix_of_flatMap hfits hall hbytes
      simp [Intake.messages, Intake.opened]
  | body _ hheader hframe _ _ hbytes =>
      obtain ⟨more, rfl, hrest⟩ := Message.prefix_of_flatMap hfits hall hbytes
      obtain ⟨m, more, rfl, rfl⟩ := Message.header_of_flatMap hheader hframe
        (fun m hm => hall m (List.mem_append_right _ hm)) hrest.symm
      simp [Intake.messages, Intake.opened]
  | ended _ hbytes hends =>
      obtain ⟨more, rfl, hrest⟩ := Message.prefix_of_flatMap hfits hall hbytes
      cases hends with
      | body hheader hframe _ =>
          obtain ⟨m, more, rfl, rfl⟩ := Message.header_of_flatMap hheader hframe
            (fun m hm => hall m (List.mem_append_right _ hm)) hrest.symm
          simp [Intake.messages, Intake.opened]
      | _ =>
          simp [Intake.messages, Intake.opened]

end Reads

end Client

end RemoteCalls
