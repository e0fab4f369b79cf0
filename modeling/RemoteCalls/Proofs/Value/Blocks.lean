import RemoteCalls.Proofs.Value.RoundTrip

/-!
# RemoteCalls.Proofs.Value.Blocks

A string is read in blocks, and comes out as if it were read at once.

The reading goes in rounds.  Each begins at a position in the string, makes room for
a block behind what the variable holds, and asks the source for it (`Stand.round`).
`Rounds` are all rounds of a reading, with what comes out in the end.  Between two
rounds the variable holds just the octets that have arrived (`Stand.Sound`), so that
there is never room for more than one block beyond them, whatever the count of the
string promises.

Main statement: `string_read_in_blocks`, for sources that are good and stay so until
they end, in any way.
-/

namespace RemoteCalls.Ty

open Source

/-! ## The rounds of a reading -/

/-- Where the reading of a string stands between two blocks. -/
structure Stand where
  /-- Where in the string the next block begins. -/
  pos : UInt32
  /-- What the variable holds. -/
  held : Bytes
  source : Source

namespace Stand

/-- Read the next block of a string of `size` octets, if there is one: where the reading stands
then, or what has come out. -/
def round (size : UInt32) (g : Stand) : Stand ⊕ Reading Bytes :=
  if g.pos < size then
    let n := nextBlock size g.pos
    let t := g.source.transfer n.toNat
    let held := g.held ++ block n t.bytes
    if t.escaped then .inr ⟨held, t.source, some .exceptionOccurred⟩
    else if t.source.condition.isFailed then .inr ⟨held, t.source, t.source.condition.verdict⟩
    else .inl ⟨g.pos + n, held, t.source⟩
  else .inr ⟨g.held, g.source, g.source.condition.verdict⟩

end Stand

/-- The rounds of a reading from where it stands: where each begins, and what comes out. -/
inductive Rounds (size : UInt32) : Stand → List Stand → Reading Bytes → Prop where
  | last {g : Stand} {r : Reading Bytes} (h : g.round size = .inr r) : Rounds size g [g] r
  | next {g g' : Stand} {others : List Stand} {r : Reading Bytes} (h : g.round size = .inl g')
      (rest : Rounds size g' others r) : Rounds size g (g :: others) r

/-- Every reading is made of rounds, and comes to an end. -/
theorem rounds_readBlocks (size pos : UInt32) (held : Bytes) (s : Source) :
    ∃ stands, Rounds size ⟨pos, held, s⟩ stands ((readBlocks size pos s).map (held ++ ·)) := by
  induction pos, s using readBlocks.induct size generalizing held with
  | case1 pos s hlt n t hescaped =>
      refine ⟨_, .last ?_⟩
      rw [readBlocks, Stand.round, if_pos hlt, if_pos hlt, if_pos hescaped, if_pos hescaped]
      rfl
  | case2 pos s hlt n t hescaped hfailed =>
      refine ⟨_, .last ?_⟩
      rw [readBlocks, Stand.round, if_pos hlt, if_pos hlt, if_neg hescaped, if_neg hescaped,
        if_pos hfailed, if_pos hfailed]
      rfl
  | case3 pos s hlt n t hescaped hfailed ih =>
      obtain ⟨stands, hrounds⟩ := ih (held ++ block n t.bytes)
      have hround : Stand.round size ⟨pos, held, s⟩ =
          .inl ⟨pos + n, held ++ block n t.bytes, t.source⟩ := by
        rw [Stand.round, if_pos hlt, if_neg hescaped, if_neg hfailed]
      refine ⟨_ :: stands, .next hround ?_⟩
      rw [readBlocks, if_pos hlt, if_neg hescaped, if_neg hfailed]
      simpa only [Reading.map, List.append_assoc] using hrounds
  | case4 pos s hge =>
      refine ⟨_, .last ?_⟩
      rw [readBlocks, Stand.round, if_neg hge, if_neg hge]
      simp only [Reading.map, List.append_nil]

/-! ## Between two rounds -/

/-- What holds between two rounds of a reading that began with the source `s`: the octets in front of
the position have arrived, and are all that the variable holds. -/
structure Stand.Sound (size : UInt32) (s : Source) (g : Stand) : Prop where
  within : g.pos ≤ size
  arrived : g.pos.toNat ≤ s.rest.length
  held : g.held = s.rest.take g.pos.toNat
  source : g.source = s.skip g.pos.toNat

section Quiet

variable {size : UInt32} {s : Source} {g g' : Stand} {stands : List Stand} {r : Reading Bytes}

theorem Stand.sound_start (size : UInt32) (s : Source) : Stand.Sound size s ⟨0, [], s⟩ where
  within := UInt32.zero_le
  arrived := Nat.zero_le _
  held := rfl
  source := rfl

/-- A round that is followed by another has brought a whole block. -/
theorem Stand.Sound.round (hs : s.IsQuiet) (h : g.Sound size s) (hround : g.round size = .inl g') :
    g.pos < size ∧ g'.pos = g.pos + nextBlock size g.pos ∧ g'.Sound size s := by
  rw [Stand.round, h.source] at hround
  split at hround
  case isFalse => contradiction
  case isTrue hlt =>
    obtain ⟨-, hnext, -, -⟩ := toNat_left hlt
    have hadd := toNat_add_nextBlock hlt
    have hlen : (s.skip g.pos.toNat).rest.length = s.rest.length - g.pos.toNat := List.length_drop
    have harrived := h.arrived
    by_cases hroom : (nextBlock size g.pos).toNat ≤ (s.skip g.pos.toNat).rest.length
    · simp only [transfer_of_le (hs.skip _) hroom, Bool.false_eq_true, if_false, skip_skip,
        hs.isFailed_skip, block_of_length (List.length_take_of_le hroom), Sum.inl.injEq] at hround
      subst hround
      refine ⟨hlt, rfl, hnext, ?_, ?_, ?_⟩
      · simp only [hadd]
        omega
      · simp only [hadd, h.held, List.take_add]
        rfl
      · simp only [hadd]
    · have hshort := Nat.not_le.mp hroom
      simp only [transfer_of_lt (hs.skip _) hshort, isFailed_exhausted, if_true] at hround
      split at hround <;> contradiction

/-- All rounds are sound if the first is. -/
theorem Rounds.sound (hs : s.IsQuiet) (rounds : Rounds size g stands r) (h : g.Sound size s) :
    ∀ g' ∈ stands, g'.Sound size s := by
  induction rounds with
  | last hround =>
      intro g' hmem
      exact List.mem_singleton.mp hmem ▸ h
  | next hround rest ih =>
      intro g' hmem
      rcases List.mem_cons.mp hmem with rfl | hmem
      · exact h
      · exact ih (h.round hs hround).2.2 g' hmem

/-- There is a round for each block, and at most one more, which finds that there is none left. -/
theorem Rounds.length_le (hs : s.IsQuiet) (rounds : Rounds size g stands r) (h : g.Sound size s) :
    stands.length ≤ (size.toNat - g.pos.toNat + 65535) / 65536 + 1 := by
  induction rounds with
  | last hround => simp
  | @next g g' others r hround rest ih =>
      obtain ⟨hlt, hpos, hsound⟩ := h.round hs hround
      have hblock := toNat_nextBlock hlt
      have hadd := toNat_add_nextBlock hlt
      have hless : g.pos.toNat < size.toNat := UInt32.lt_iff_toNat_lt.mp hlt
      have hothers := ih hsound
      rw [hpos, hadd, hblock] at hothers
      rw [List.length_cons]
      omega

end Quiet

/-! ## The whole reading -/

/-- A string whose count has arrived is read in blocks. -/
theorem readBytes_of_quiet {s : Source} (hs : s.IsQuiet) {size : UInt32} {payload : Bytes}
    (hrest : s.rest = encodeCount size.toNat ++ payload) (old : Bytes) :
    readBytes old s = readBlocks size 0 (s.skip 4) := by
  have hfour : (encodeCount size.toNat).length = 4 := Bytes.length_ofNatLE 4 _
  have hroom : 4 ≤ s.rest.length := by
    rw [hrest, List.length_append]
    omega
  have hcount : UInt32.ofNat (Bytes.toNatLE (s.rest.take 4)) = size := by
    rw [hrest]
    exact UInt32.toNat_inj.mp (count_encodeCount size.toNat_lt payload)
  rw [readBytes, readCount, fetch_of_le hs hroom]
  simp only [hcount]

/-- No more stands in a variable than what has come and one block. -/
theorem length_padded_le (bytes : Bytes) (size : Nat) :
    (padded bytes size).length ≤ bytes.length + 65536 := by
  rw [padded, List.length_append, List.length_replicate, blockEnd]
  omega

/-- A string of which `payload` is there, or as much of it as its count announces.  Reading it block
by block gives what reading it at once gives, up to the zeros behind what has come of a string that
is cut short.  It comes to an end, after a round for each block and at most one more; no position in
it wraps around; and between its rounds the variable holds just what has arrived.  If enough is
there, just the string is read, and nothing behind it; if not, the reading fails, and has taken all
that was there.  In the end the variable holds at most one block beyond what has come. -/
theorem string_read_in_blocks {s : Source} (hs : s.IsQuiet) {size : UInt32} {payload : Bytes}
    (hrest : s.rest = encodeCount size.toNat ++ payload) (old : Bytes) :
    let r := readBytes old s
    let atOnce := (s.skip 4).transfer size.toNat
    r = ⟨padded atOnce.bytes size.toNat, atOnce.source, atOnce.fault⟩ ∧
    (∃ stands, Rounds size ⟨0, [], s.skip 4⟩ stands r ∧
      stands.length ≤ (size.toNat + 65535) / 65536 + 1 ∧
      ∀ g ∈ stands, g.Sound size (s.skip 4) ∧
        (g.pos < size →
          (size - g.pos).toNat = size.toNat - g.pos.toNat ∧
          (nextBlock size g.pos).toNat = min 65536 (size.toNat - g.pos.toNat) ∧
          (g.pos + nextBlock size g.pos).toNat = g.pos.toNat + (nextBlock size g.pos).toNat)) ∧
    (size.toNat ≤ payload.length →
      r = ⟨payload.take size.toNat, s.skip (4 + size.toNat), none⟩) ∧
    (payload.length < size.toNat →
      r.fault = some s.ending.fault ∧ r.source.rest = [] ∧
      r.source.position = s.position + 4 + payload.length) ∧
    r.value.length ≤ min size.toNat payload.length + 65536 := by
  intro r atOnce
  have hquiet := hs.skip 4
  have hpayload : (s.skip 4).rest = payload := by
    rw [Source.skip, hrest]
    exact List.drop_left' (Bytes.length_ofNatLE 4 _)
  have hr : r = readBlocks size 0 (s.skip 4) := readBytes_of_quiet hs hrest old
  have hatOnce : r = ⟨padded atOnce.bytes size.toNat, atOnce.source, atOnce.fault⟩ :=
    hr.trans (readBlocks_of_quiet UInt32.zero_le hquiet (Nat.sub_zero _))
  refine ⟨hatOnce, ?_, ?_, ?_, ?_⟩
  · obtain ⟨stands, hrounds⟩ := rounds_readBlocks size 0 [] (s.skip 4)
    have hsame : (readBlocks size 0 (s.skip 4)).map ([] ++ ·) = r := hr.symm
    rw [hsame] at hrounds
    have hstart := Stand.sound_start size (s.skip 4)
    refine ⟨stands, hrounds, hrounds.length_le hquiet hstart, fun g hg => ?_⟩
    refine ⟨hrounds.sound hquiet hstart g hg, fun hlt => ?_⟩
    exact ⟨UInt32.toNat_sub_of_le _ _ (UInt32.le_of_lt hlt), toNat_nextBlock hlt,
      toNat_add_nextBlock hlt⟩
  · intro hroom
    rw [← hpayload] at hroom
    rw [hatOnce, fault_transfer_of_le hquiet hroom]
    simp only [atOnce, transfer_of_le hquiet hroom, skip_skip, hpayload,
      padded_of_length (List.length_take_of_le (hpayload ▸ hroom))]
  · intro hshort
    rw [← hpayload] at hshort
    rw [hatOnce, fault_transfer_of_lt hquiet hshort]
    simp only [atOnce, transfer_of_lt hquiet hshort]
    exact ⟨rfl, rfl, by rw [← hpayload]; rfl⟩
  · have hcame : atOnce.bytes.length = min size.toNat payload.length := by
      rw [← hpayload]
      exact length_bytes_transfer hquiet _
    rw [hatOnce, ← hcame]
    exact length_padded_le _ _

/-- A string with an octet behind it; and one with the largest count, of which two octets come before
the source fails. -/
theorem string_read_in_blocks_two_strings :
    let short : Source := { rest := encodeCount 3 ++ [97, 98, 99, 100] }
    let huge : Source := { rest := encodeCount 4294967295 ++ [97, 98], ending := .failing }
    readBytes [9] short = ⟨[97, 98, 99], short.skip 7, none⟩ ∧
      (readBytes [9] huge).fault = some .bad ∧ (readBytes [9] huge).source.rest = [] ∧
      (readBytes [9] huge).value.length ≤ 2 + 65536 := by
  intro short huge
  have hshort : short.rest = encodeCount (3 : UInt32).toNat ++ [97, 98, 99, 100] := rfl
  have hhuge : huge.rest = encodeCount (4294967295 : UInt32).toNat ++ [97, 98] := rfl
  obtain ⟨-, -, hall, -, -⟩ := string_read_in_blocks ⟨rfl, rfl⟩ hshort [9]
  obtain ⟨-, -, -, hcut, hlen⟩ := string_read_in_blocks ⟨rfl, rfl⟩ hhuge [9]
  obtain ⟨hfault, hrest, -⟩ := hcut (by decide)
  exact ⟨hall (by decide), hfault, hrest, hlen⟩

end RemoteCalls.Ty
