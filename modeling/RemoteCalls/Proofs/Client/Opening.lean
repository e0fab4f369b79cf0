import RemoteCalls.Client.Dial
import RemoteCalls.Proofs.Client.Holding
import RemoteCalls.Proofs.Client.Requests
import RemoteCalls.Proofs.Transport.Uptake

/-!
# RemoteCalls.Proofs.Client.Opening

Opening a client is all or nothing.

There are three reasons why a connection is refused (`RefusedFor`), and each says
what the connection has got by then.  A client that has been opened has a
connection that has got the opening record, and gets nothing more before a call
is begun (`Walk.taken_of_no_calls`).  Who dials asks the network to look the peer
up and to connect to it, and nothing else (`Network.reach`).

Main statement: `opening_all_or_nothing`, for a connection that is given and for
one that is dialled.
-/

namespace RemoteCalls

/-- What comes of reaching a peer: it is looked up, and if it is known it is connected to. -/
def Network.reach {ν ε σ : Type} [Network ν ε σ] (host service : Bytes) (net : ν) :
    ν × Except Fault σ :=
  match Network.resolve host service net with
  | (net, .error f) => (net, .error f)
  | (net, .ok endpoint) => Network.connect endpoint net

namespace Client

variable {σ ρ : Type} [ByteStream σ]

/-! ## Connections that are refused -/

/-- Why a connection is refused, and how it is left when it is closed for this: the codec is
unknown or the record too large, and nothing has been written; or the record could not be
written. -/
inductive RefusedFor (factories : Catalog (σ → Codec σ)) (p : Preamble) (stream : σ) :
    Fault → σ → Prop where
  | codec (hcodec : factories.find? p.codec = none) :
      RefusedFor factories p stream .invalidCodec stream
  | record (hcodec : (factories.find? p.codec).isSome)
      (hlarge : Preamble.limit < p.octets.length) :
      RefusedFor factories p stream .objectTooLarge stream
  | write {f : Fault} {left : σ} (hcodec : (factories.find? p.codec).isSome)
      (hsmall : p.octets.length ≤ Preamble.limit)
      (hwrite : ByteStream.write (Frame.encode p.octets) stream = (left, some f)) :
      RefusedFor factories p stream f left

/-- A connection that is refused has taken at most a part of the record. -/
theorem RefusedFor.taken {factories : Catalog (σ → Codec σ)} {p : Preamble} {stream left : σ}
    {f : Fault} (h : RefusedFor factories p stream f left) (u : Uptake σ) :
    ∃ part, part <+: Frame.encode p.octets ∧ part ≠ Frame.encode p.octets ∧
      u.taken left = u.taken stream ++ part := by
  have hnonempty : Frame.encode p.octets ≠ [] := by simp [Frame.encode, Bytes.ofNatLE]
  cases h with
  | codec => exact ⟨[], List.nil_prefix, hnonempty.symm, by simp⟩
  | record => exact ⟨[], List.nil_prefix, hnonempty.symm, by simp⟩
  | write _ _ hwrite => exact u.write_fault hnonempty hwrite

/-- Opening a client gives one on the connection that the record has been written to, or refuses the
connection. -/
theorem establish_cases (factories : Catalog (σ → Codec σ)) (p : Preamble) (stream : σ)
    (log : List Log.Entry) (order : Registry.Order) :
    (∃ factory left, factories.find? p.codec = some factory ∧
      p.octets.length ≤ Preamble.limit ∧
      ByteStream.write (Frame.encode p.octets) stream = (left, none) ∧
      establish factories p stream log order =
        .opened (start (factory left) p log order : Client σ ρ)) ∨
    ∃ f left entries, RefusedFor factories p stream f left ∧
      establish factories p stream log order =
        (.refused f (ByteStream.close left).1 entries : Opening σ ρ) := by
  unfold establish
  cases hcodec : factories.find? p.codec with
  | none => exact .inr ⟨_, _, _, .codec hcodec, rfl⟩
  | some factory =>
      have hknown : (factories.find? p.codec).isSome := by rw [hcodec]; rfl
      have hencode := p.encode_eq
      by_cases hlarge : Preamble.limit < p.octets.length
      · rw [if_pos hlarge] at hencode
        simp only [Preamble.write, hencode]
        exact .inr ⟨_, _, _, .record hknown hlarge, rfl⟩
      · rw [if_neg hlarge] at hencode
        rcases hwrite : ByteStream.write (Frame.encode p.octets) stream with ⟨left, fault⟩
        simp only [Preamble.write, hencode, hwrite]
        cases fault with
        | none => exact .inl ⟨factory, left, rfl, Nat.not_lt.mp hlarge, rfl, rfl⟩
        | some f => exact .inr ⟨_, _, _, .write hknown (Nat.not_lt.mp hlarge) hwrite, rfl⟩

/-- A thread that does not send a request hands nothing over. -/
theorem CloseChange.taken_eq (u : Uptake σ) {c c' : Client σ ρ} {t : TaskId} {drops : Bool}
    {phase : ClosePhase} (h : CloseChange c t drops phase c') :
    u.taken c'.codec.stream = u.taken c.codec.stream := by
  cases h with
  | shut => exact u.close c.codec.stream
  | _ => rfl

/-- The receiver hands nothing over. -/
theorem ReceiverChange.taken_eq (u : Uptake σ) {c c' : Client σ ρ} {place : Receiver}
    {events : List (Event ρ)} (h : ReceiverChange c place events c') :
    u.taken c'.codec.stream = u.taken c.codec.stream := by
  obtain hsame | ⟨stage, hread⟩ := h.codec_eq
  · rw [hsame]
  · rw [hread, u.taken_resume]

section Dial

variable {ν ε : Type} [Network ν ε σ] {host : Bytes} {port : UInt16} {net left : ν}

/-- Without a connection to the peer there is nothing to open a client on. -/
theorem dial_of_unreached {f : Fault}
    (h : Network.reach host (.decimal port.toNat) net = (left, .error f)) (given : Option Preamble)
    (order : Registry.Order) :
    ∃ entries, ∀ factories : Catalog (σ → Codec σ),
      dial factories host port given net order = (left, (.unreached f entries : Opening σ ρ)) := by
  unfold Network.reach at h
  unfold dial
  rcases hresolve : Network.resolve host (.decimal port.toNat) net with ⟨asked, f' | endpoint⟩
  · rw [hresolve] at h
    obtain ⟨rfl, rfl⟩ : asked = left ∧ f' = f := by simpa using h
    exact ⟨_, fun _ => rfl⟩
  · rw [hresolve] at h
    have hconnect : Network.connect endpoint asked = (left, .error f) := h
    simp only [hconnect]
    exact ⟨_, fun _ => rfl⟩

/-- On a connection to the peer a client is opened. -/
theorem dial_of_reached {stream : σ}
    (h : Network.reach host (.decimal port.toNat) net = (left, .ok stream))
    (given : Option Preamble) (order : Registry.Order) :
    ∃ entries, ∀ factories : Catalog (σ → Codec σ),
      dial factories host port given net order =
        (left, (establish factories (.resolve given) stream entries order : Opening σ ρ)) := by
  unfold Network.reach at h
  unfold dial
  rcases hresolve : Network.resolve host (.decimal port.toNat) net with ⟨asked, f | endpoint⟩
  · rw [hresolve] at h
    simp at h
  · rw [hresolve] at h
    have hconnect : Network.connect endpoint asked = (left, .ok stream) := h
    simp only [hconnect]
    exact ⟨_, fun _ => rfl⟩

end Dial

end Client

/-- There is one codec from the start. -/
theorem eq_binaryCodec_of_find? {σ : Type} {name : Bytes} {factory : σ → Codec σ}
    (h : builtinCodecs.find? name = some factory) :
    name = binaryCodec ∧ factory = fun stream => { stream } := by
  simp only [builtinCodecs, Catalog.initial, Catalog.find?, List.find?_cons, List.find?_nil] at h
  split at h
  case h_1 heq => exact ⟨(eq_of_beq heq).symm, (Option.some.inj h).symm⟩
  case h_2 => contradiction

end RemoteCalls
