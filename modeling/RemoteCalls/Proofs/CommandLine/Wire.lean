import RemoteCalls.CommandLine.Program
import RemoteCalls.Proofs.Client.Schedule
import RemoteCalls.Proofs.CommandLine.Items

/-!
# RemoteCalls.Proofs.CommandLine.Wire

From a command line to what its peer reads.

A command line with which nothing is wrong asks for a peer (`Program.reached`) and
for one message (`Program.message`).  Behind the record that opens the connection,
the connection gets this message or a part of it and nothing else, whatever order
the client's threads take their steps in (`Program.carried_of_walk`).  By the program's own
schedule it gets all of it if there is room (`Program.Delivered`), and a peer that
gets all of it reads the arguments of the command line (`Program.readBack`).

Main statement: `command_line_reaches_the_wire`.
-/

namespace RemoteCalls

namespace Program

open Client

variable {ν ε : Type} [Network ν ε Socket] {config : Config} {net left : ν} {stream : Socket}
  {c c' c'' : Client Socket Bytes}

/-! ## The message that is asked for -/

/-- The message that a command line asks for.  Its call is the first one of its client. -/
def message (config : Config) : Message where
  header := { service := config.service, method := config.method, seq := 1 }
  body := Ty.bytesList.encode config.args

theorem isFirst_message (hfits : (message config).Fits defaultLimit) :
    (request config).IsFirst (message config) :=
  ⟨rfl, [], Message.bodyPayload_ofValue .bytesList (Ty.fits_of_length hfits.body.count)⟩

/-- No other message is made of the request of a command line. -/
theorem eq_message_of_isFirst {m : Message} (h : (request config).IsFirst m) :
    m = message config := by
  obtain ⟨hheader, entries, hbody⟩ := h
  have hfault : (Ty.bytesList.write config.args .empty).2 = none := by
    have hnone := congrArg (fun payload => payload.2.2) hbody
    cases hwrite : (Ty.bytesList.write config.args .empty).2 with
    | none => rfl
    | some f =>
        simp [request, Codec.bodyPayload, BodyWriter.ofValue, hwrite, Verdict.ofFault,
          Verdict.fault] at hnone
  have hpayload := Message.bodyPayload_ofValue .bytesList (Ty.fits_of_write hfault)
  obtain ⟨header, body⟩ := m
  obtain rfl : header = _ := hheader
  obtain rfl : Ty.bytesList.encode config.args = body :=
    congrArg Prod.fst (hpayload.symm.trans hbody)
  rfl

/-! ## The connection -/

/-- The record that a connection of the program is opened with. -/
def record : Bytes := Frame.encode (Preamble.octets {})

theorem record_ne_nil : record ≠ [] := by
  simp [record, Frame.encode, Bytes.ofNatLE]

/-- What comes of reaching the peer that a command line asks for, by its host and its port. -/
def reached (config : Config) (net : ν) : ν × Except Fault Socket :=
  Network.reach config.host (.decimal config.port.toNat) net

/-- A port keeps its value in 16 bits. -/
theorem toNat_port (hlow : 1 ≤ config.port) (hhigh : config.port ≤ 65535) :
    ((UInt16.ofNat config.port.toNat).toNat : Int) = config.port := by
  have hlt : config.port.toNat < 65536 := by omega
  rw [UInt16.toNat_ofNat_of_lt' hlt]
  omega

/-- The peer that is dialled is the one that is asked for. -/
theorem reach_port (hlow : 1 ≤ config.port) (hhigh : config.port ≤ 65535) (net : ν) :
    Network.reach config.host (.decimal (UInt16.ofNat config.port.toNat).toNat) net =
      reached config net := by
  have hport := toNat_port hlow hhigh
  rw [reached, show (UInt16.ofNat config.port.toNat).toNat = config.port.toNat by omega]

/-- Whether a command line asks for the codec that there is. -/
def AsksForCodec (config : Config) : Prop := config.codec = [] ∨ config.codec = binaryCodec

/-- The record that is sent for a command line names the codec it asks for. -/
theorem codec_resolve_iff (config : Config) :
    (Preamble.resolve (some { codec := config.codec })).codec = binaryCodec ↔
      AsksForCodec config := by
  by_cases hnone : config.codec = []
  · simp [Preamble.resolve, AsksForCodec, hnone]
  · simp [Preamble.resolve, AsksForCodec, hnone]

section Dial

variable (hlow : 1 ≤ config.port) (hhigh : config.port ≤ 65535)

include hlow hhigh

/-- Without a connection to the peer of the command line there is no client. -/
theorem dial_unreached {f : Fault} (h : reached config net = (left, .error f)) :
    ∃ entries, dial config net = (left, .unreached f entries) := by
  obtain ⟨entries, hdial⟩ := Client.dial_of_unreached (ρ := Bytes)
    ((reach_port hlow hhigh net).trans h) (some { codec := config.codec }) .newestFirst
  exact ⟨entries, hdial builtinCodecs⟩

/-- On a connection to that peer a client is to be opened, under the record of the command line. -/
theorem dial_establishes (h : reached config net = (left, .ok stream)) :
    ∃ entries, dial config net = (left, establish builtinCodecs
      (.resolve (some { codec := config.codec })) stream entries .newestFirst) := by
  obtain ⟨entries, hdial⟩ := Client.dial_of_reached (ρ := Bytes)
    ((reach_port hlow hhigh net).trans h) (some { codec := config.codec }) .newestFirst
  exact ⟨entries, hdial builtinCodecs⟩

/-- Dialling asks the network for the peer of the command line, and for nothing else. -/
theorem dial_fst (net : ν) : (dial config net).1 = (reached config net).1 := by
  rcases hreach : reached config net with ⟨left, f | stream⟩
  · obtain ⟨entries, hdial⟩ := dial_unreached hlow hhigh hreach
    exact congrArg Prod.fst hdial
  · obtain ⟨entries, hdial⟩ := dial_establishes hlow hhigh hreach
    exact congrArg Prod.fst hdial

/-- On a connection to that peer a client is opened, which has sent the record of this library's
codec, unless another codec is asked for or there is no room for the record. -/
theorem dial_of_reached (h : (reached config net).2 = .ok stream) :
    (∃ after log, (dial config net).2 = .opened (start { stream := after } {} log) ∧
      AsksForCodec config ∧ ByteStream.write record stream = (after, none)) ∨
    (∀ c, (dial config net).2 ≠ .opened c) ∧
      ¬ (AsksForCodec config ∧ (ByteStream.write record stream).2 = none) := by
  obtain ⟨entries, hdial⟩ := dial_establishes hlow hhigh (Prod.ext rfl h)
  have hcodec := codec_resolve_iff config
  have hmark : (Preamble.resolve (some { codec := config.codec })).mark = protocolMark := rfl
  rw [hdial]
  generalize Preamble.resolve (some { codec := config.codec }) = p at hcodec hmark
  obtain ⟨mark, name⟩ := p
  obtain rfl : mark = protocolMark := hmark
  obtain ⟨factory, after, hfind, -, hwrite, heq⟩ | ⟨f, after, entries', hrefused, heq⟩ :=
    establish_cases (ρ := Bytes) builtinCodecs ⟨protocolMark, name⟩ stream entries .newestFirst
  · obtain ⟨rfl, rfl⟩ : name = binaryCodec ∧ _ := eq_binaryCodec_of_find? hfind
    exact .inl ⟨after, entries, heq, hcodec.mp rfl, hwrite⟩
  · rw [heq]
    refine .inr ⟨fun c => by simp, ?_⟩
    rintro ⟨hasks, hroom⟩
    obtain rfl : name = binaryCodec := hcodec.mpr hasks
    cases hrefused with
    | codec hnone => contradiction
    | record _ hlarge => exact absurd hlarge (by decide)
    | write _ _ hwrite =>
        rw [show (ByteStream.write record stream).2 = some f from congrArg Prod.snd hwrite] at hroom
        contradiction

end Dial

/-- A connection has got the record, and then so much of the message. -/
structure Got (config : Config) (stream : Socket) (part : Bytes) (s : Socket) : Prop where
  outgoing : s.outgoing = stream.outgoing ++ (record ++ part)
  begun : part <+: (message config).encode

section Got

variable {after s : Socket} (hwrite : ByteStream.write record stream = (after, none))

include hwrite

theorem got_of_transfer {t : Transfer} (hmessage : t.message = message config)
    (htaken : s.outgoing = after.outgoing ++ t.taken) : Got config stream t.taken s where
  outgoing := by
    have hafter : after.outgoing = stream.outgoing ++ record := Socket.outlet.write_ok hwrite
    rw [htaken, hafter, List.append_assoc]
  begun := hmessage ▸ t.taken_prefix

theorem got_of_eq (hkept : s.outgoing = after.outgoing) : Got config stream [] s where
  outgoing := by
    rw [hkept, List.append_nil]
    exact Socket.outlet.write_ok hwrite
  begun := List.nil_prefix

end Got

/-- What a connection has got of the message in these steps: nothing if the message has not been
handed over, and all of it just if its write has succeeded. -/
def HandedOver (config : Config) (stream : Socket) (steps : List (Client.Taken Socket Bytes))
    (s : Socket) : Prop :=
  ∃ part, Got config stream part s ∧
    (steps.filterMap Client.Taken.handed? = [] ∧ part = [] ∨
      (message config).Fits defaultLimit ∧ ∃ fault,
        steps.filterMap Client.Taken.handed? = [(message config, fault)] ∧
        (part = (message config).encode ↔ fault = none))

/-- Whatever order the threads take their steps in, the connection gets the message, if its write
succeeds, or a part, or nothing. -/
theorem carried_of_walk {after : Socket} {log : List Log.Entry}
    (hwrite : ByteStream.write record stream = (after, none)) {outside : Socket → Socket → Prop}
    (houtside : ∀ s s', outside s s' → s'.outgoing = s.outgoing)
    {steps : List (Client.Taken Socket Bytes)}
    (walk : Walk outside (start { stream := after } {} log) steps c)
    (hsole : requests (steps.flatMap Client.Taken.events) <+: [(0, request config)]) :
    HandedOver config stream steps c.codec.stream := by
  have hlimit : defaultLimit < Ty.countLimit := by decide
  obtain ⟨hnone, htaken⟩ | ⟨t, hfirst, hfits, hone, htaken⟩ :=
    walk.taken_of_sole Socket.outlet.uptake hlimit houtside hsole
  · exact ⟨[], got_of_eq hwrite htaken, .inl ⟨hnone, rfl⟩⟩
  · have hmessage := eq_message_of_isFirst hfirst
    rw [hmessage] at hfits hone
    exact ⟨t.taken, got_of_transfer hwrite hmessage htaken,
      .inr ⟨hfits, t.fault, hone, hmessage ▸ t.taken_eq_iff⟩⟩

/-- What a connection has got of the message once it has been written: all of it just if the message
fits its frames and there is room for it, and nothing if it does not fit. -/
structure Delivered (config : Config) (stream : Socket) (part : Bytes) (s : Socket) : Prop
    extends Got config stream part s where
  whole : part = (message config).encode ↔ (message config).Fits defaultLimit ∧
    stream.HasRoom (record ++ (message config).encode)
  fits : part ≠ [] → (message config).Fits defaultLimit

/-- When the thread has written, the connection has got what it takes of the message. -/
theorem delivered_of_writes {after : Socket} {log : List Log.Entry}
    {steps : List (Client.Taken Socket Bytes)} {s : Client.Taken Socket Bytes} {t : TaskId}
    (hwrite : ByteStream.write record stream = (after, none))
    (h : Underway (start { stream := after } {} log) (request config) steps c) (hs : s ∈ steps)
    (hwrites : s.Writes after.TakesAs t) : ∃ part, Delivered config stream part c.codec.stream := by
  have hlimit : defaultLimit < Ty.countLimit := by decide
  by_cases hfits : (message config).Fits defaultLimit
  · obtain ⟨transfer, hmessage, hfault, htaken⟩ :=
      h.taken_of_writes Socket.outlet.uptake hlimit hs hwrites (isFirst_message hfits) hfits
    have hroom : transfer.fault = none ↔
        stream.HasRoom (record ++ (message config).encode) := by
      rw [hfault, Socket.write_eq_none_iff _ (Message.encode_ne_nil _), hwrites.stream.hasRoom_iff,
        Socket.hasRoom_append_iff record_ne_nil hwrite]
    have hwhole : transfer.taken = (message config).encode ↔ transfer.fault = none :=
      hmessage ▸ transfer.taken_eq_iff
    exact ⟨transfer.taken, got_of_transfer hwrite hmessage htaken,
      hwhole.trans (hroom.trans (and_iff_right hfits).symm), fun _ => hfits⟩
  · have hsole : requests (steps.flatMap Client.Taken.events) <+: [(0, request config)] :=
      h.sole ▸ List.prefix_rfl
    obtain ⟨-, htaken⟩ | ⟨transfer, hfirst, hfirstFits, -⟩ :=
      h.walk.taken_of_sole Socket.outlet.uptake hlimit (fun _ _ => False.elim) hsole
    · have hnot : [] ≠ (message config).encode := (Message.encode_ne_nil _).symm
      exact ⟨[], got_of_eq hwrite htaken, iff_of_false hnot fun h => hfits h.1,
        fun hne => absurd rfl hne⟩
    · exact absurd (eq_message_of_isFirst hfirst ▸ hfirstFits) hfits

/-! ## The run of the program -/

/-- With help or complaints no network is asked for anything. -/
theorem run_of_stop {args complaints : List Bytes}
    (hscan : Config.scan args = .ok (config, complaints))
    (hstop : config.showHelp = true ∨ complaints ≠ []) :
    ∃ o : Outcome, o.socket = none ∧
      ∀ {ν ε : Type} [Network ν ε Socket] (net : ν), run args net = .ok (net, some o) := by
  let told := lines complaints
  by_cases hhelp : config.showHelp = true
  · let o : Outcome := { exitCode := 0, stdout := help (args.headD []), stderr := told }
    refine ⟨o, rfl, fun net => ?_⟩
    rw [run, hscan]
    exact if_pos hhelp
  · let o : Outcome := { exitCode := 1, stderr := told ++ lines [.ofText "aborting..."] }
    refine ⟨o, rfl, fun net => ?_⟩
    rw [run, hscan]
    exact (if_neg hhelp).trans (if_pos (hstop.resolve_left hhelp))

/-- Without, a call is made. -/
theorem run_of_right {args : List Bytes} (hscan : Config.scan args = .ok (config, []))
    (hhelp : config.showHelp = false) (net : ν) : run args net = call config net := by
  rw [run, hscan]
  exact (if_neg (by simp [hhelp])).trans (if_neg (by simp))

/-- What is left when a call has been made on a connection. -/
theorem call_of_opened {answer : Option (Call Bytes)} (hopened : dial config net = (left, .opened c))
    (hcall : c.call (request config) = .ok (c', answer)) (hdrop : c'.drop = .ok c'') :
    ∃ result, call config net = .ok (left, result) ∧
      ∀ o, result = some o → o.socket = some c''.codec.stream := by
  cases answer with
  | none =>
      refine ⟨none, ?_, by simp⟩
      simp only [call, hopened]
      rw [hcall]
      rfl
  | some answer =>
      have heq : ∃ o : Outcome, call config net = .ok (left, some o) ∧
          o.socket = some c''.codec.stream := by
        simp only [call, hopened]
        rw [hcall]
        show ∃ o : Outcome, (c'.drop >>= _) = _ ∧ _
        rw [hdrop]
        show ∃ o : Outcome, (if answer.error.isOk = true then _ else _) = _ ∧ _
        split <;> exact ⟨_, rfl, rfl⟩
      obtain ⟨o, hcalled, hsocket⟩ := heq
      refine ⟨some o, hcalled, fun o' ho' => ?_⟩
      obtain rfl := Option.some.inj ho'
      exact hsocket

/-- A run that does not get to a call comes to its end. -/
theorem call_of_not_opened (h : ∀ c, (dial config net).2 ≠ .opened c) :
    ∃ o : Outcome, call config net = .ok ((dial config net).1, some o) ∧ o.exitCode = 1 := by
  rw [call]
  rcases hdial : dial config net with ⟨left, ⟨f, log⟩ | ⟨f, socket, log⟩ | c⟩
  · exact ⟨_, rfl, rfl⟩
  · exact ⟨_, rfl, rfl⟩
  · exact absurd (congrArg Prod.snd hdial) (h c)

/-- What becomes of a call on a connection that has got the record. -/
theorem delivered_of_opened {after : Socket} {log : List Log.Entry}
    (hopened : dial config net = (left, .opened (start { stream := after } {} log)))
    (hwrite : ByteStream.write record stream = (after, none)) :
    (∃ c' answer part, (start { stream := after } {} log).call (request config) =
        .ok (c', answer) ∧ Delivered config stream part c'.codec.stream) ∧
    ∃ result, call config net = .ok (left, result) ∧ ∀ o, result = some o →
      ∃ s part, o.socket = some s ∧ Delivered config stream part s := by
  obtain ⟨steps, c', answer, hcall, hunderway, s, hs, hwrites⟩ :=
    call_writes (P := after.TakesAs) (fun hkept hread => hkept.read hread) { stream := after } {}
      log .newestFirst (request config) ⟨rfl, rfl, rfl⟩
  obtain ⟨later, c'', hdrop, hdropped, -⟩ := hunderway.drop
  obtain ⟨part, hpart⟩ := delivered_of_writes hwrite hunderway hs hwrites
  obtain ⟨part', hpart'⟩ :=
    delivered_of_writes hwrite hdropped (List.mem_append_left later hs) hwrites
  obtain ⟨result, hresult, hsocket⟩ := call_of_opened hopened hcall hdrop
  exact ⟨⟨c', answer, part, hcall, hpart⟩, result, hresult,
    fun o ho => ⟨_, part', hsocket o ho, hpart'⟩⟩

/-! ## The peer -/

/-- A peer that has got these octets, and others behind them, reads the record of this library's
codec, a header that asks for the service and the method of a command line, and a body that is its
arguments; and just the other octets are left. -/
def ReadsBack (config : Config) (octets : Bytes) : Prop :=
  ∀ {τ : Type} [ByteStream τ] {ending : Fault} (d : Delivery τ ending) (stream : τ) (rest : Bytes)
    (old : Preamble) (header : Header) (reply : List Bytes),
    d.Holds stream (octets ++ rest) → d.Arrived stream →
    ∃ (stream' : τ) (result : Except Fault Bytes) (reader : Codec τ),
      Preamble.resume .size stream = .done stream' result ∧ old.receive result = ({}, none) ∧
      Codec.readAll [{ header, reader := some (.ofType .bytesList), reply }] { stream := stream' } =
        some (reader,
          [(({ service := config.service, method := config.method, seq := 1 }, none),
            (config.args, none))]) ∧
      d.Holds reader.stream rest

theorem readBack (hfits : (message config).Fits defaultLimit) :
    ReadsBack config (record ++ (message config).encode) := by
  intro τ _ ending d stream rest old header reply hholds harrived
  have hrecord : Frame.Fits Preamble.limit (Preamble.octets {}) := ⟨by decide, by decide⟩
  have hargs : Ty.bytesList.Fits config.args := Ty.fits_of_length hfits.body.count
  rw [record, List.append_assoc] at hholds
  obtain ⟨stream', hread, hrest, hstill⟩ := Preamble.resume_encode d hrecord harrived hholds
  let plan : Codec.Plan (List Bytes) := { header, reader := some (.ofType .bytesList), reply }
  have hmessage : d.Holds ({ stream := stream' } : Codec τ).stream
      ([message config].flatMap Message.encode ++ rest) := by
    rwa [List.flatMap_singleton]
  have hplans : [plan].length = [message config].length := rfl
  obtain ⟨reader, hall, hleft⟩ :=
    Codec.readAll_encode d hplans hmessage hstill (List.forall_mem_singleton.mpr hfits)
  have hresult : plan.result (message config) =
      (((message config).header, none), (config.args, none)) := by
    rw [Codec.Plan.result, message, BodyReader.result_encode .bytesList hargs]
  refine ⟨stream', _, reader, hread, ?_, ?_, hleft⟩
  · exact Preamble.receive_octets (Ty.fits_of_length hrecord.count) rfl old
  · rw [hall, List.zipWith_cons_cons, hresult]
    rfl

/-! ## Main statement -/

/-- What becomes of a command line with which nothing is wrong: which peer the network is asked for,
what the connection gets, and what is read of it. -/
structure Carried (config : Config) (net : ν) : Prop where
  /-- The port keeps its value in 16 bits. -/
  port : ((UInt16.ofNat config.port.toNat).toNat : Int) = config.port
  /-- The network is asked for the host and the port of the command line, and for nothing else; and
  the call ends or is never answered. -/
  dials : ∃ result, call config net = .ok ((reached config net).1, result)
  /-- A client is opened just on a connection to that peer, if this library's codec is asked for and
  there is room for its record. -/
  opens : (∃ c, (dial config net).2 = .opened c) ↔ AsksForCodec config ∧
    ∃ stream, (reached config net).2 = .ok stream ∧ stream.HasRoom record
  /-- If there is no client the program fails. -/
  fails : (∀ c, (dial config net).2 ≠ .opened c) →
    ∃ o : Outcome, call config net = .ok ((reached config net).1, some o) ∧ o.exitCode = 1
  /-- Whatever order the client's threads take their steps in, its connection gets the message, if
  its write succeeds, or a part, or nothing. -/
  inAnyOrder : ∀ {stream : Socket} {c c' : Client Socket Bytes} {outside : Socket → Socket → Prop}
    {steps : List (Client.Taken Socket Bytes)}, (reached config net).2 = .ok stream →
    (dial config net).2 = .opened c → (∀ s s', outside s s' → s'.outgoing = s.outgoing) →
    Walk outside c steps c' →
    requests (steps.flatMap Client.Taken.events) <+: [(0, request config)] →
    HandedOver config stream steps c'.codec.stream
  /-- By the program's schedule the connection gets what there is room for. -/
  inTurn : ∀ {stream : Socket} {c : Client Socket Bytes}, (reached config net).2 = .ok stream →
    (dial config net).2 = .opened c →
    (∃ c' answer part, c.call (request config) = .ok (c', answer) ∧
      Delivered config stream part c'.codec.stream) ∧
    ∀ o, (call config net).toOption.bind (·.2) = some o →
      ∃ s part, o.socket = some s ∧ Delivered config stream part s
  /-- Whoever gets all of the message reads what the command line asks for. -/
  readBack : (message config).Fits defaultLimit →
    ReadsBack config (record ++ (message config).encode)

section Carried

variable (hlow : 1 ≤ config.port) (hhigh : config.port ≤ 65535)

include hlow hhigh

/-- Only on a connection to the peer of the command line is a client opened. -/
theorem opened_of_dial (hopened : (dial config net).2 = .opened c) :
    AsksForCodec config ∧ ∃ stream after log, (reached config net).2 = .ok stream ∧
      ByteStream.write record stream = (after, none) ∧
      dial config net = ((reached config net).1, .opened (start { stream := after } {} log)) ∧
      c = start { stream := after } {} log := by
  cases hreach : (reached config net).2 with
  | error f =>
      obtain ⟨entries, hdial⟩ := dial_unreached hlow hhigh (Prod.ext rfl hreach)
      rw [hdial] at hopened
      contradiction
  | ok stream =>
      obtain ⟨after, log, hnow, hasks, hwrite⟩ | ⟨hnot, -⟩ := dial_of_reached hlow hhigh hreach
      · exact ⟨hasks, stream, after, log, rfl, hwrite,
          Prod.ext (dial_fst hlow hhigh net) hnow,
          Opening.opened.inj (hopened.symm.trans hnow)⟩
      · exact absurd hopened (hnot c)

theorem carried (net : ν) : Carried config net where
  port := toNat_port hlow hhigh
  dials := by
    by_cases hopened : ∃ c, (dial config net).2 = .opened c
    · obtain ⟨c, hopened⟩ := hopened
      obtain ⟨-, stream, after, log, -, hwrite, hdial, -⟩ := opened_of_dial hlow hhigh hopened
      obtain ⟨-, result, hresult, -⟩ := delivered_of_opened hdial hwrite
      exact ⟨result, hresult⟩
    · obtain ⟨o, hcall, -⟩ := call_of_not_opened (not_exists.mp hopened)
      exact ⟨some o, dial_fst hlow hhigh net ▸ hcall⟩
  opens := by
    constructor
    · rintro ⟨c, hopened⟩
      obtain ⟨hasks, stream, after, log, hreach, hwrite, -⟩ := opened_of_dial hlow hhigh hopened
      exact ⟨hasks, stream, hreach,
        (stream.write_eq_none_iff record_ne_nil).mp (congrArg Prod.snd hwrite)⟩
    · rintro ⟨hasks, stream, hreach, hroom⟩
      obtain ⟨after, log, hnow, -⟩ | ⟨-, hnot⟩ := dial_of_reached hlow hhigh hreach
      · exact ⟨_, hnow⟩
      · exact absurd ⟨hasks, (stream.write_eq_none_iff record_ne_nil).mpr hroom⟩ hnot
  fails hnot := by
    obtain ⟨o, hcall, hcode⟩ := call_of_not_opened hnot
    exact ⟨o, dial_fst hlow hhigh net ▸ hcall, hcode⟩
  inAnyOrder hreach hopened houtside walk hsole := by
    obtain ⟨-, stream, after, log, hstream, hwrite, -, rfl⟩ := opened_of_dial hlow hhigh hopened
    obtain rfl := Except.ok.inj (hstream.symm.trans hreach)
    exact carried_of_walk hwrite houtside walk hsole
  inTurn hreach hopened := by
    obtain ⟨-, stream, after, log, hstream, hwrite, hdial, rfl⟩ :=
      opened_of_dial hlow hhigh hopened
    obtain rfl := Except.ok.inj (hstream.symm.trans hreach)
    obtain ⟨hcall, result, hresult, hkept⟩ := delivered_of_opened hdial hwrite
    refine ⟨hcall, fun o ho => hkept o ?_⟩
    rw [hresult] at ho
    exact ho
  readBack := readBack

end Carried

end Program

/-- **A command line loses and misreads nothing, through to the wire.**  It is read to its end
without leaving it, as items into which it can be split in one way only.  If it does not ask for
help, there are complaints just if something is wrong with the items; otherwise those without a flag
are the service, the method and the call's own arguments, in order.  With help or complaints no
network is asked for anything.  Otherwise any network is asked for just the peer of the command
line, and this peer gets a message that it reads as the service, the method and the arguments. -/
theorem command_line_reaches_the_wire (args : List Bytes) :
    ∃ items config complaints,
      Config.scan args = .ok (config, complaints) ∧
      Config.Split (args.drop 1) items ∧
      (∀ others, Config.Split (args.drop 1) others → others = items) ∧
      Config.Asked items config ∧
      (config.showHelp = false → (complaints ≠ [] ↔ Config.Mistaken items)) ∧
      (config.showHelp = false → complaints = [] →
        items.filterMap Config.Item.positional? = config.service :: config.method :: config.args) ∧
      (config.showHelp = true ∨ complaints ≠ [] → ∃ o : Outcome, o.socket = none ∧
        ∀ {ν ε : Type} [Network ν ε Socket] (net : ν),
          Program.run args net = .ok (net, some o)) ∧
      (config.showHelp = false → complaints = [] →
        ∀ {ν ε : Type} [Network ν ε Socket] (net : ν),
          Program.run args net = Program.call config net ∧ Program.Carried config net) := by
  have hscan := Config.scan_eq args
  have hasked := Config.asked_parse args
  have hcomplaints := @Config.complaints_ne_nil args
  have hpositional := @Config.filterMap_positional? args
  rcases hparse : Config.parse args with ⟨config, complaints⟩
  rw [hparse] at hscan hasked hcomplaints hpositional
  refine ⟨Config.split (args.drop 1), config, complaints, hscan, Config.split_spec _,
    fun others h => h.eq_split, hasked, hcomplaints, hpositional, ?_, ?_⟩
  · exact Program.run_of_stop hscan
  · intro hhelp hright ν ε _ net
    have hmistaken := mt (hcomplaints hhelp).mpr (not_not.mpr hright)
    have hport : 1 ≤ config.port ∧ config.port ≤ 65535 := by
      rw [hasked.port]
      by_contra hnot
      exact hmistaken (.inr (.inr (.inl hnot)))
    exact ⟨Program.run_of_right (hright ▸ hscan) hhelp net, Program.carried hport.1 hport.2 net⟩

/-- A flag between the arguments whose own argument looks like a flag, and an argument that is
empty.  The network is asked for that peer, once. -/
theorem command_line_reaches_the_wire_two_arguments :
    let args := ["muxrpc", "-p", "70", "echo", "join", "a b", "--host", "-c", ""].map Bytes.ofText
    let config : Config :=
      { host := .ofText "-c", port := 70, service := .ofText "echo", method := .ofText "join"
        args := [.ofText "a b", []] }
    let net : Switchboard Socket := { connection := {} }
    let peer := (Bytes.ofText "-c", Bytes.ofText "70")
    ∃ o s, Program.run args net =
        .ok ({ net with lookups := [peer], attempts := [peer] }, some o) ∧
      o.socket = some s ∧ s.outgoing = Program.record ++ (Program.message config).encode ∧
      Program.ReadsBack config s.outgoing := by
  intro args config net peer
  have hparse : Config.parse args = (config, []) := by decide +kernel
  have hfits : (Program.message config).Fits defaultLimit :=
    Message.fits_of_length (by decide) (by decide +kernel) (by decide +kernel)
  have hanswered : ((Program.run args net).toOption.bind (·.2)).isSome = true := by decide +kernel
  obtain ⟨items, _, _, hscan, -, -, -, -, -, -, hright⟩ := command_line_reaches_the_wire args
  rw [Config.scan_eq, hparse] at hscan
  obtain ⟨rfl, rfl⟩ := Prod.mk.inj (Except.ok.inj hscan)
  obtain ⟨hrun, hcarried⟩ := hright rfl rfl net
  obtain ⟨result, hresult⟩ := hcarried.dials
  rw [hrun, hresult] at hanswered
  obtain ⟨o, rfl⟩ := Option.isSome_iff_exists.mp hanswered
  have hreached : Program.reached config net =
      ({ net with lookups := [peer], attempts := [peer] }, .ok {}) := by decide +kernel
  have hstream : (Program.reached config net).2 = .ok {} := congrArg Prod.snd hreached
  obtain ⟨c, hopened⟩ := hcarried.opens.mpr ⟨.inr rfl, {}, hstream, rfl, by simp⟩
  obtain ⟨s, part, hsocket, hdelivered⟩ :=
    (hcarried.inTurn hstream hopened).2 o (by rw [hresult]; rfl)
  have hwhole : part = (Program.message config).encode :=
    hdelivered.whole.mpr ⟨hfits, rfl, by simp⟩
  have houtgoing : s.outgoing = Program.record ++ (Program.message config).encode :=
    hwhole ▸ hdelivered.outgoing
  rw [hreached] at hresult
  exact ⟨o, s, hrun.trans hresult, hsocket, houtgoing, houtgoing ▸ hcarried.readBack hfits⟩

end RemoteCalls
