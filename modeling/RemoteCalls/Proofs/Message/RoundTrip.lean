import RemoteCalls.Proofs.Message.Conversation

/-!
# RemoteCalls.Proofs.Message.RoundTrip

Whole conversations: messages written on one connection and read on another.

Whether a message is written is told by the message and the limit alone
(`Message.ofWriting`), and one that is not written leaves no octet behind.  A body
that is read has been taken whole, whatever its reader makes of it.

Main statement: `conversation_round_trip`, reading gives the messages that were
written, in order, and stops just behind them.
-/

namespace RemoteCalls

/-! ## Readers of bodies -/

/-- What a body reader makes of the octets of a body: the reply, and whether the body counts as
unreadable.  Without a reader the reply is left alone. -/
def BodyReader.result {ρ : Type} (reader : Option (BodyReader ρ)) (reply : ρ) (body : Bytes) :
    ρ × Option Fault :=
  match reader with
  | none => (reply, none)
  | some read =>
      let (after, verdict) := read reply (.ofBytes body)
      (after, if verdict = .accepted then none else some .bodyDecodeFailed)

theorem Verdict.fault_eq_none {v : Verdict} : v.fault = none ↔ v = .accepted := by
  cases v <;> simp [fault]

/-- A body frame is judged by its reader. -/
theorem BodyReader.ofFrame_eq_result {ρ : Type} (reader : Option (BodyReader ρ)) (reply : ρ)
    (body : Bytes) : ∃ entries, ofFrame reader reply body =
      ((result reader reply body).1, entries, (result reader reply body).2) := by
  cases reader with
  | none => exact ⟨[], rfl⟩
  | some read =>
      rcases hread : read reply (.ofBytes body) with ⟨after, verdict⟩
      cases hfault : verdict.fault with
      | none =>
          obtain rfl := Verdict.fault_eq_none.mp hfault
          exact ⟨[], by simp only [ofFrame, result, hread]; rfl⟩
      | some f =>
          have hrejected : verdict ≠ .accepted := by
            rintro rfl
            contradiction
          exact ⟨_, by simp only [ofFrame, result, hread, hfault, if_neg hrejected]; rfl⟩

/-- A body that is not accepted counts as unreadable, and nothing else can go wrong. -/
theorem BodyReader.result_fault {ρ : Type} (reader : Option (BodyReader ρ)) (reply : ρ)
    (body : Bytes) : (result reader reply body).2 = none ∨
      (result reader reply body).2 = some .bodyDecodeFailed := by
  cases reader with
  | none => exact .inl rfl
  | some read =>
      simp only [result]
      split
      · exact .inl rfl
      · exact .inr rfl

/-- A reader of one value gets the value that is there. -/
theorem BodyReader.ofType_encode (t : Ty) {v : t.Val} (hfits : t.Fits v) (old : t.Val) :
    ofType t old (.ofBytes (t.encode v)) = (v, .accepted) := by
  have hread := t.read_encode hfits old [] 0
  rw [List.append_nil, ← Source.ofBytes_eq_plain] at hread
  simp only [ofType, hread]
  rfl

theorem BodyReader.result_encode (t : Ty) {v : t.Val} (hfits : t.Fits v) (old : t.Val) :
    result (some (ofType t)) old (t.encode v) = (v, none) := by
  simp only [result, ofType_encode t hfits old, if_true]

/-! ## Writing messages one after another -/

/-- A header, and what writes the body behind it unless that is empty. -/
abbrev Writing := Header × Option BodyWriter

/-- The message that a header and a body writer make: none if the body cannot be written or a frame
exceeds the limit. -/
def Message.ofWriting (limit : Nat) (w : Writing) : Option Message :=
  let (payload, _, fault) := Codec.bodyPayload w.2
  if fault = none ∧ w.1.encode.length ≤ limit ∧ payload.length ≤ limit then some ⟨w.1, payload⟩
  else none

namespace Message

variable {limit : Nat}

theorem ofWriting_eq_some {w : Writing} {m : Message} (h : ofWriting limit w = some m) :
    (∃ entries, Codec.bodyPayload w.2 = (m.body, entries, none)) ∧ m.header = w.1 ∧
      m.header.encode.length ≤ limit ∧ m.body.length ≤ limit := by
  rcases hbody : Codec.bodyPayload w.2 with ⟨payload, entries, fault⟩
  simp only [ofWriting, hbody] at h
  split at h
  case isFalse => contradiction
  case isTrue hwritable =>
    obtain ⟨rfl, hheader, hpayload⟩ := hwritable
    obtain rfl := Option.some.inj h
    exact ⟨⟨entries, rfl⟩, rfl, hheader, hpayload⟩

/-- A value is written as its octets. -/
theorem bodyPayload_ofValue (t : Ty) {v : t.Val} (hfits : t.Fits v) :
    Codec.bodyPayload (some (.ofValue t v)) = (t.encode v, [], none) := by
  simp only [Codec.bodyPayload, BodyWriter.ofValue, Sink.empty_eq_holding,
    Ty.write_holding t hfits, Sink.written_holding, List.nil_append]
  rfl

theorem ofWriting_ofValue (h : Header) (t : Ty) {v : t.Val} (hfits : t.Fits v)
    (hheader : h.encode.length ≤ limit) (hbody : (t.encode v).length ≤ limit) :
    ofWriting limit (h, some (.ofValue t v)) = some ⟨h, t.encode v⟩ := by
  simp only [ofWriting, bodyPayload_ofValue t hfits, hheader, hbody, and_self, if_true]

/-- A message that can be written fits its frames. -/
theorem fits_of_ofWriting (hlimit : limit < Ty.countLimit) {w : Writing} {m : Message}
    (h : ofWriting limit w = some m) : m.Fits limit := by
  obtain ⟨-, -, hheader, hbody⟩ := ofWriting_eq_some h
  exact fits_of_length hlimit hheader hbody

/-- A message that can be written is written as its octets. -/
theorem encodeMessage_of_ofWriting (hlimit : limit < Ty.countLimit) {w : Writing} {m : Message}
    (h : ofWriting limit w = some m) :
    ∃ entries, Codec.encodeMessage limit w.1 w.2 = (entries, .ok m.encode) := by
  have hfits := fits_of_ofWriting hlimit h
  obtain ⟨⟨entries, hpayload⟩, hheader, hframe, hbody⟩ := ofWriting_eq_some h
  have hsmall : ¬ (limit < m.header.encode.length ∨ limit < m.body.length) := by omega
  refine ⟨entries, ?_⟩
  rw [Codec.encodeMessage, ← hheader, Header.write_empty hfits.header]
  simp only [hpayload, Sink.written_holding, if_neg hsmall]
  rfl

/-- A message that was encoded could be written. -/
theorem ofWriting_of_fits {w : Writing} {m : Message} {entries : List Log.Entry}
    (hheader : m.header = w.1) (hfits : m.Fits limit)
    (hbody : Codec.bodyPayload w.2 = (m.body, entries, none)) : ofWriting limit w = some m := by
  have hsmall : w.1.encode.length ≤ limit := hheader ▸ hfits.frame.limit
  simp only [ofWriting, hbody, hsmall, hfits.body.limit, and_self, if_true]
  rw [← hheader]

/-- A message that fits a limit fits a higher one. -/
theorem Fits.mono {limit' : Nat} (hle : limit ≤ limit') {m : Message} (h : m.Fits limit) :
    m.Fits limit' where
  header := h.header
  frame := ⟨Nat.le_trans h.frame.limit hle, h.frame.count⟩
  body := ⟨Nat.le_trans h.body.limit hle, h.body.count⟩

end Message

namespace Codec

variable {σ : Type} [ByteStream σ]

/-- Write messages in order, whatever becomes of each: those whose write succeeded, as their header
and what their body writer left. -/
def writeAll : List Writing → Codec σ → Codec σ × List Message
  | [], c => (c, [])
  | w :: ws, c =>
      let (c, _, fault) := c.write w.1 w.2
      let (c, sent) := writeAll ws c
      (c, if fault = none then ⟨w.1, (bodyPayload w.2).1⟩ :: sent else sent)

section Write

variable (a : Acceptance σ) {c : Codec σ} (hopen : a.Open c.stream)
  (hlimit : c.limit < Ty.countLimit)

include hopen hlimit

/-- Where everything is taken, a message is written if it can be, and otherwise nothing is. -/
theorem write_accepted (w : Writing) :
    (∃ m stream entries, Message.ofWriting c.limit w = some m ∧
      c.write w.1 w.2 = ({ c with stream }, entries, none) ∧
      a.taken stream = a.taken c.stream ++ m.encode ∧ a.Open stream) ∨
    ∃ entries fault, Message.ofWriting c.limit w = none ∧
      c.write w.1 w.2 = (c, entries, some fault) := by
  cases hwriting : Message.ofWriting c.limit w with
  | some m =>
      obtain ⟨entries, hencode⟩ := Message.encodeMessage_of_ofWriting hlimit hwriting
      obtain ⟨stream, hwrite, htaken, hstill⟩ := a.write m.encode hopen
      refine .inl ⟨m, stream, entries, rfl, ?_, htaken, hstill⟩
      simp only [Codec.write, hencode, hwrite]
  | none =>
      rcases hwrite : c.write w.1 w.2 with ⟨c', entries, fault⟩
      cases fault with
      | none =>
          obtain ⟨m, -, hheader, hfits, hbody, -⟩ := Message.write_ok hlimit hwrite
          rw [Message.ofWriting_of_fits hheader hfits hbody] at hwriting
          contradiction
      | some fault =>
          obtain rfl | ⟨m, _, -, -, -, hfailed, -⟩ := Message.write_fault hlimit hwrite
          · exact .inr ⟨entries, fault, rfl, rfl⟩
          · obtain ⟨stream, htaken, -⟩ := a.write m.encode hopen
            rw [htaken] at hfailed
            simp at hfailed

/-- Where everything is taken, the octets taken are those of the messages that can be written. -/
theorem writeAll_accepted (ws : List Writing) :
    (c.writeAll ws).2 = ws.filterMap (Message.ofWriting c.limit) ∧
      a.taken (c.writeAll ws).1.stream =
        a.taken c.stream ++ (c.writeAll ws).2.flatMap Message.encode := by
  induction ws generalizing c with
  | nil => simp [writeAll]
  | cons w ws ih =>
      obtain ⟨m, stream, entries, hwriting, hwrite, htaken, hstill⟩ |
        ⟨entries, fault, hwriting, hwrite⟩ := write_accepted a hopen hlimit w
      · obtain ⟨⟨_, hpayload⟩, hheader, -⟩ := Message.ofWriting_eq_some hwriting
        have hlater := @ih { c with stream } hstill hlimit
        have hsent : (⟨w.1, (bodyPayload w.2).1⟩ : Message) = m := by rw [hpayload, ← hheader]
        simp only [writeAll, hwrite, if_true, hsent, List.filterMap_cons, hwriting,
          List.flatMap_cons]
        exact ⟨by rw [hlater.1], by rw [hlater.2, htaken, List.append_assoc]⟩
      · have hlater := ih hopen hlimit
        simp only [writeAll, hwrite, List.filterMap_cons, hwriting, reduceCtorEq, if_false]
        exact hlater

end Write

/-! ## Reading messages one after another -/

/-- What a message is read into: a variable for its header, and a reader for its body with the reply
it fills, unless the body is read past. -/
structure Plan (ρ : Type) where
  header : Header := {}
  reader : Option (BodyReader ρ)
  reply : ρ

/-- Read a header and a body in turn, whatever becomes of each, unless that has to wait: what each
variable holds after it, and what went wrong. -/
def readAll {ρ : Type} : List (Plan ρ) → Codec σ →
    Option (Codec σ × List ((Header × Option Fault) × (ρ × Option Fault)))
  | [], c => some (c, [])
  | p :: ps, c =>
      match c.readHeader p.header with
      | none => none
      | some (c, header) =>
          match c.readBody p.reader p.reply with
          | none => none
          | some (c, reply, _, fault) =>
              (readAll ps c).map fun (c, more) => (c, (header, (reply, fault)) :: more)

/-- What reading a message by a plan gives: its header, and what the reader makes of its body. -/
def Plan.result {ρ : Type} (p : Plan ρ) (m : Message) :
    (Header × Option Fault) × (ρ × Option Fault) :=
  ((m.header, none), BodyReader.result p.reader p.reply m.body)

/-- Messages are read in order, by whatever plans. -/
theorem readAll_encode {ending : Fault} (d : Delivery σ ending) {ρ : Type} {plans : List (Plan ρ)}
    {messages : List Message} (hplans : plans.length = messages.length) {rest : Bytes} {c : Codec σ}
    (hholds : d.Holds c.stream (messages.flatMap Message.encode ++ rest))
    (harrived : d.Arrived c.stream) (hfits : ∀ m ∈ messages, m.Fits c.limit) :
    ∃ c', c.readAll plans = some (c', List.zipWith Plan.result plans messages) ∧
      d.Holds c'.stream rest := by
  induction messages generalizing c plans with
  | nil =>
      obtain rfl := List.length_eq_zero_iff.mp hplans
      exact ⟨c, rfl, hholds⟩
  | cons m messages ih =>
      obtain ⟨p, plans, rfl⟩ := List.exists_cons_of_length_eq_add_one hplans
      obtain ⟨hm, hmore⟩ := List.forall_mem_cons.mp hfits
      rw [List.flatMap_cons, Message.encode, List.append_assoc, List.append_assoc] at hholds
      obtain ⟨c₁, hheader, hlimit₁, hholds₁, harrived₁⟩ :=
        Message.readHeader_encode d harrived p.header hm.header hm.frame hholds
      obtain ⟨c₂, hbody, hlimit₂, hholds₂, harrived₂⟩ :=
        Message.readBody_encode d harrived₁ p.reader p.reply (hlimit₁ ▸ hm.body) hholds₁
      have hlimit : c₂.limit = c.limit := hlimit₂.trans hlimit₁
      obtain ⟨c', hlater, hrest⟩ :=
        ih (Nat.succ.inj hplans) hholds₂ harrived₂ (hlimit ▸ hmore)
      obtain ⟨entries, hresult⟩ := BodyReader.ofFrame_eq_result p.reader p.reply m.body
      refine ⟨c', ?_, hrest⟩
      simp only [readAll, hheader, hbody, hresult, hlater, Option.map_some, List.zipWith_cons_cons]
      rfl

end Codec

/-- Messages are written on a connection that takes everything, some of which may not be written.
Those that can be written are; and a connection with no lower limit that gives the octets taken, and
others behind them, gives the headers of these messages and hands their bodies to the readers in
turn, whatever the readers do; then just the other octets are left. -/
theorem conversation_round_trip {σ τ : Type} [ByteStream σ] [ByteStream τ] (a : Acceptance σ)
    {ending : Fault} (d : Delivery τ ending) {writer : Codec σ} (hopen : a.Open writer.stream)
    (hlimit : writer.limit < Ty.countLimit) (ws : List Writing) {writer' : Codec σ}
    {sent : List Message} (hwritten : writer.writeAll ws = (writer', sent)) :
    sent = ws.filterMap (Message.ofWriting writer.limit) ∧
    ∃ bytes, a.taken writer'.stream = a.taken writer.stream ++ bytes ∧
      ∀ (ρ : Type) (reader : Codec τ) (further : Bytes) (plans : List (Codec.Plan ρ)),
        writer.limit ≤ reader.limit → d.Holds reader.stream (bytes ++ further) →
        d.Arrived reader.stream → plans.length = sent.length →
          ∃ reader', reader.readAll plans =
              some (reader', List.zipWith Codec.Plan.result plans sent) ∧
            d.Holds reader'.stream further := by
  obtain ⟨hsent, htaken⟩ := Codec.writeAll_accepted a hopen hlimit ws
  simp only [hwritten] at hsent htaken
  refine ⟨hsent, sent.flatMap Message.encode, htaken, ?_⟩
  intro ρ reader further plans hle hholds harrived hplans
  have hfits : ∀ m ∈ sent, m.Fits reader.limit := by
    intro m hm
    rw [hsent] at hm
    obtain ⟨w, -, hw⟩ := List.mem_filterMap.mp hm
    exact (Message.fits_of_ofWriting hlimit hw).mono hle
  exact Codec.readAll_encode d hplans hholds harrived hfits

/-- A body that is read whole, a body writer that throws, a header frame that is too large, and an
empty body whose reader throws, with two octets behind them. -/
theorem conversation_round_trip_four_writes :
    let first : Header := { service := [65], method := [66], seq := 9223372036854775808, error := [0] }
    let last : Header := { seq := 9 }
    let ws : List Writing :=
      [(first, some (.ofValue (.signed .w32) (5 : BitVec 32))), ({}, some fun s => (s, .raised none)),
        ({ service := List.replicate 30 1 }, none), (last, none)]
    let plans : List (Codec.Plan Bytes) :=
      [{ header := last, reader := some Message.wholeBody, reply := [4] },
        { reader := some fun old _ => (old, .raised none), reply := [3] }]
    let writer : Codec MemoryStream := { stream := {}, limit := 32 }
    let written := (writer.writeAll ws).1.stream.outgoing
    let reader : Codec MemoryStream :=
      { stream := { incoming := written ++ [1, 2], ended := true } }
    ∃ reader', reader.readAll plans = some (reader',
        [((first, none), ([5, 0, 0, 0], none)), ((last, none), ([3], some .bodyDecodeFailed))]) ∧
      reader'.stream.incoming = [1, 2] := by
  intro first last ws plans writer written reader
  have hsent : (writer.writeAll ws).2 = [⟨first, [5, 0, 0, 0]⟩, ⟨last, []⟩] := by decide +kernel
  rcases hwritten : writer.writeAll ws with ⟨writer', sent⟩
  rw [hwritten] at hsent
  obtain rfl : sent = [⟨first, [5, 0, 0, 0]⟩, ⟨last, []⟩] := hsent
  obtain ⟨-, bytes, htaken, hread⟩ :=
    conversation_round_trip MemoryStream.acceptance (MemoryStream.delivery .connectionClosed)
      ⟨rfl, rfl⟩ (by decide) ws hwritten
  have hbytes : written = bytes := by
    simp only [written, hwritten]
    exact htaken
  obtain ⟨reader', hall, hrest, -⟩ := hread Bytes reader [1, 2] plans (by decide)
    ⟨congrArg (· ++ [1, 2]) hbytes, rfl, rfl, rfl, rfl⟩ trivial rfl
  exact ⟨reader', hall, hrest⟩

end RemoteCalls
