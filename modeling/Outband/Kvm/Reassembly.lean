import Outband.Kvm.Ivtp

/-!
# Reassembly of video frames

A sender cuts each frame into numbered fragments and may put other packets
between them. `readLoop_reassembles` says that the loop recovers the frames:
the state between two packets is determined by the fragments of the current
frame that have arrived (`Awaits`), and every packet takes one such state to the
next.
-/

namespace Outband.Kvm.Ivtp

open Foundation

/-! ### Packets on the wire -/

/-- A packet: its type, its status and its payload. -/
structure Packet where
  typ : BitVec 8
  status : BitVec 16
  payload : Bytes

def Packet.bytes (p : Packet) : Bytes :=
  Header.marshal ⟨p.typ, BitVec.ofNat 32 p.payload.length, p.status⟩ ++ p.payload

/-- A video fragment that carries a fragment number. -/
def Packet.isFragment (p : Packet) : Bool := p.typ = opVideoFragment ∧ 2 ≤ p.payload.length

theorem getLE_putLE_four (v : BitVec 32) : getLE 32 (putLE 4 v) = v := by
  apply BitVec.eq_of_toNat_eq
  have := v.isLt
  simp [getLE, putLE, List.range_succ, BitVec.toNat_setWidth, Nat.shiftRight_eq_div_pow]
  omega

theorem getLE_putLE_two (v : BitVec 16) : getLE 16 (putLE 2 v) = v := by
  apply BitVec.eq_of_toNat_eq
  have := v.isLt
  simp [getLE, putLE, List.range_succ, BitVec.toNat_setWidth, Nat.shiftRight_eq_div_pow]
  omega

theorem length_putLE {w : Nat} (n : Nat) (v : BitVec w) : (putLE n v).length = n := by
  simp [putLE]

theorem readFull_append {a b : Bytes} {n : Nat} (h : a.length = n) :
    readFull n (a ++ b) = .ok (a, b) := by
  subst h
  unfold readFull
  rw [if_pos (by simp)]
  simp

theorem discard_append {a b : Bytes} {n : Nat} (h : a.length = n) :
    discard n (a ++ b) = .ok b := by
  subst h
  unfold discard
  rw [if_pos (by simp)]
  simp

/-- A header is read back. -/
theorem readHeader_marshal (h : Header) (rest : Bytes) :
    readHeader (h.marshal ++ rest) = .ok (h, rest) := by
  have hlen : h.marshal.length = HeaderSize := by
    simp [Header.marshal, length_putLE, HeaderSize]
  unfold readHeader
  rw [readFull_append hlen]
  have hsize : (h.marshal.drop 1).take 4 = putLE 4 h.size :=
    List.take_left' (length_putLE 4 h.size)
  have hstatus : (h.marshal.drop 5).take 2 = putLE 2 h.status := by
    have hdrop : h.marshal.drop 5 = putLE 2 h.status :=
      List.drop_left' (length_putLE 4 h.size)
    rw [hdrop, List.take_of_length_le (length_putLE 2 h.status).le]
  change Except.ok ((⟨h.typ, getLE 32 ((h.marshal.drop 1).take 4),
    getLE 16 ((h.marshal.drop 5).take 2)⟩ : Header), rest) = _
  rw [hsize, hstatus, getLE_putLE_four, getLE_putLE_two]

namespace ReadLoop

variable {s : ReadLoop} {p : Packet} {rest : Bytes}

/-- A packet that is no fragment is skipped, with its payload. -/
theorem readPacket_skip (hp : p.isFragment = false) (hlen : p.payload.length < 2 ^ 32)
    (hinput : s.input = p.bytes ++ rest) :
    s.readPacket = .ok (.inl { s with input := rest }) := by
  have hsize : (BitVec.ofNat 32 p.payload.length).toNat = p.payload.length := by
    rw [BitVec.toNat_ofNat, Nat.mod_eq_of_lt hlen]
  unfold readPacket
  rw [hinput, Packet.bytes, List.append_assoc, readHeader_marshal]
  dsimp only
  rw [hsize, if_neg (of_decide_eq_false hp), discard_append rfl]

/-- The number of a fragment on the wire. -/
def fragmentNumber (num : Nat) (last : Bool) : BitVec 16 :=
  BitVec.ofNat 16 num ||| if last then 0x8000 else 0

/-- The packet of one fragment. -/
def fragmentPacket (num : Nat) (last : Bool) (f : BitVec 16 × Bytes) : Packet where
  typ := opVideoFragment
  status := f.1
  payload := putLE 2 (fragmentNumber num last) ++ f.2

/-- The flags of a fragment number below 32768. -/
theorem fragment_flags {num : Nat} (hnum : num < 32768) (last : Bool) :
    (fragmentNumber num last &&& 0x7fff = 0 ↔ num = 0) ∧
      (fragmentNumber num last &&& 0x8000 ≠ 0 ↔ last = true) := by
  have hlow : BitVec.ofNat 16 num &&& 0x7fff = BitVec.ofNat 16 num := by
    apply BitVec.eq_of_toNat_eq
    rw [BitVec.toNat_and, BitVec.toNat_ofNat, show (0x7fff : BitVec 16).toNat = 2 ^ 15 - 1 from rfl,
      Nat.and_two_pow_sub_one_eq_mod]
    omega
  have hhigh : BitVec.ofNat 16 num &&& 0x8000 = 0 := by
    rw [← hlow, BitVec.and_assoc]
    exact BitVec.and_zero
  have hzero : BitVec.ofNat 16 num = 0 ↔ num = 0 := by
    constructor
    · intro h
      have := congrArg BitVec.toNat h
      rw [BitVec.toNat_ofNat, Nat.mod_eq_of_lt (by omega)] at this
      simpa using this
    · rintro rfl
      rfl
  cases last with
  | false =>
      have hnumber : fragmentNumber num false = BitVec.ofNat 16 num := BitVec.or_zero
      rw [hnumber, hlow, hhigh]
      simpa using hzero
  | true =>
      have hlow' : fragmentNumber num true &&& 0x7fff = BitVec.ofNat 16 num := by
        rw [fragmentNumber, BitVec.and_or_distrib_right, hlow]
        exact BitVec.or_zero
      have hhigh' : fragmentNumber num true &&& 0x8000 = 0x8000 := by
        rw [fragmentNumber, BitVec.and_or_distrib_right, hhigh]
        rfl
      rw [hlow', hhigh']
      simpa using hzero

/-- A fragment extends the buffer, or starts it afresh when it is the first; the last one hands
the frame over. -/
theorem readPacket_fragment {num : Nat} {last : Bool} {f : BitVec 16 × Bytes}
    (hnum : num < 32768) (hfirst : num = 0 → s.frame = [])
    (hsize : s.frame.length + f.2.length ≤ maxFrameBytes)
    (hinput : s.input = (fragmentPacket num last f).bytes ++ rest) :
    s.readPacket = .ok (.inl (
      if last then { s with input := rest, frame := s.frame ++ f.2 }.handleFrame
      else { s with input := rest, frame := s.frame ++ f.2 })) := by
  obtain ⟨hzero, hlast⟩ := fragment_flags hnum last
  have hpayload : (fragmentPacket num last f).payload.length = f.2.length + 2 := by
    simp [fragmentPacket, length_putLE, Nat.add_comm]
  have hlen : (BitVec.ofNat 32 (fragmentPacket num last f).payload.length).toNat =
      f.2.length + 2 := by
    rw [BitVec.toNat_ofNat, hpayload]
    unfold maxFrameBytes at hsize
    omega
  have hframe : (if fragmentNumber num last &&& 0x7fff = 0 then [] else s.frame) = s.frame := by
    split_ifs with h
    · exact (hfirst (hzero.mp h)).symm
    · rfl
  unfold readPacket
  rw [hinput, Packet.bytes, List.append_assoc, readHeader_marshal]
  dsimp only
  rw [hlen, if_pos ⟨rfl, by omega⟩, show (fragmentPacket num last f).payload =
    putLE 2 (fragmentNumber num last) ++ f.2 from rfl, List.append_assoc,
    readFull_append (length_putLE 2 _)]
  dsimp only
  rw [getLE_putLE_two, Nat.add_sub_cancel, readFragment]
  dsimp only
  rw [hframe, if_neg (by omega), readFull_append rfl]
  dsimp only
  cases last with
  | true => rw [if_pos (hlast.mpr rfl)]; rfl
  | false => rw [if_neg fun h => by simp at hlast; exact h hlast]; rfl

/-! ### Frames -/

/-- A frame in fragments, each with the status its packet carries. -/
abbrev Fragments := List (BitVec 16 × Bytes)

/-- The bytes of a frame. -/
def joined (fs : Fragments) : Bytes := fs.flatMap Prod.snd

/-- The packets of a frame's fragments, numbered from `num`, the last one flagged. -/
def fragmentPackets (num : Nat) : Fragments → List Packet
  | [] => []
  | f :: fs => fragmentPacket num fs.isEmpty f :: fragmentPackets (num + 1) fs

/-- A frame of at most 8 MiB in 1 to 32768 fragments. -/
structure ValidFrame (fs : Fragments) : Prop where
  nonempty : fs ≠ []
  count : fs.length ≤ 32768
  size : (joined fs).length ≤ maxFrameBytes

/-- The buffer holds what has arrived of a frame whose fragments from number `num` on are still
to come; between two frames it is empty. -/
def Awaits (num : Nat) (fs : Fragments) (frame : Bytes) : Prop :=
  (fs = [] ∧ frame = []) ∨
    (fs ≠ [] ∧ (num = 0 → frame = []) ∧ num + fs.length ≤ 32768 ∧
      frame.length + (joined fs).length ≤ maxFrameBytes)

/-- The frames that are still to be handed over. -/
def pending (frame : Bytes) (fs : Fragments) (frames : List Fragments) : List Bytes :=
  (if fs = [] then [] else [frame ++ joined fs]) ++ frames.map joined

/-- The calls of `handleFrame` for frames after the first `seq`. -/
def numbered (seq : Nat) : List Bytes → List (Nat × Bytes)
  | [] => []
  | b :: bs => (seq + 1, b) :: numbered (seq + 1) bs

/-- The state at the end of the input, after the frames `bs` have been handed over. -/
def finish (s : ReadLoop) (bs : List Bytes) : ReadLoop where
  input := []
  seq := s.seq + bs.length
  calls := s.calls ++ numbered s.seq bs

theorem finish_handleFrame (s : ReadLoop) (bs : List Bytes) :
    finish s.handleFrame bs = finish s (s.frame :: bs) := by
  simp only [finish, handleFrame, numbered, List.length_cons, List.append_assoc,
    List.singleton_append, mk.injEq, and_true, true_and]
  omega

theorem fragmentPackets_eq_nil {num : Nat} {fs : Fragments} (h : fragmentPackets num fs = []) :
    fs = [] := by
  cases fs with
  | nil => rfl
  | cons f fs => cases h

/-- Between two frames the next fragment is the first of the next frame. -/
theorem exists_next_fragment {num : Nat} {fs : Fragments} {frames : List Fragments} {frame : Bytes}
    {ps : List Packet} (hframes : ∀ f ∈ frames, ValidFrame f) (hawaits : Awaits num fs frame)
    (h : fragmentPackets num fs ++ frames.flatMap (fragmentPackets 0) = p :: ps) :
    ∃ num' f fs' frames', p = fragmentPacket num' fs'.isEmpty f ∧
      ps = fragmentPackets (num' + 1) fs' ++ frames'.flatMap (fragmentPackets 0) ∧
      (∀ f ∈ frames', ValidFrame f) ∧ Awaits num' (f :: fs') frame ∧
      pending frame fs frames = pending frame (f :: fs') frames' := by
  cases fs with
  | cons f fs' =>
      rw [fragmentPackets, List.cons_append, List.cons.injEq] at h
      exact ⟨num, f, fs', frames, h.1.symm, h.2.symm, hframes, hawaits, rfl⟩
  | nil =>
      cases frames with
      | nil => cases h
      | cons fs frames' =>
          have hvalid := hframes fs (by simp)
          obtain ⟨f, fs', rfl⟩ := List.exists_cons_of_ne_nil hvalid.nonempty
          have hframe : frame = [] := by
            rcases hawaits with ⟨-, hframe⟩ | ⟨hne, -⟩
            · exact hframe
            · exact absurd rfl hne
          subst hframe
          rw [fragmentPackets, List.nil_append, List.flatMap_cons, fragmentPackets,
            List.cons_append, List.cons.injEq] at h
          refine ⟨0, f, fs', frames', h.1.symm, h.2.symm, fun f hf => hframes f (by simp [hf]),
            .inr ⟨by simp, fun _ => rfl, by simpa using hvalid.count, by simpa using hvalid.size⟩,
            ?_⟩
          simp [pending]

/-- The packets of a stream take the loop from fragment to fragment and from frame to frame. -/
theorem visits_packets {packets : List Packet} {num : Nat} {fs : Fragments}
    {frames : List Fragments} (hlen : ∀ p ∈ packets, p.payload.length < 2 ^ 32)
    (hframes : ∀ f ∈ frames, ValidFrame f) (hawaits : Awaits num fs s.frame)
    (hfilter : packets.filter Packet.isFragment =
      fragmentPackets num fs ++ frames.flatMap (fragmentPackets 0))
    (hinput : s.input = packets.flatMap Packet.bytes) :
    Loop.Visits readPacket s (finish s (pending s.frame fs frames)) := by
  induction packets generalizing s num fs frames with
  | nil =>
      obtain ⟨hfs, hrest⟩ := List.append_eq_nil_iff.mp hfilter.symm
      obtain rfl := fragmentPackets_eq_nil hfs
      obtain rfl : frames = [] := by
        cases frames with
        | nil => rfl
        | cons f frames =>
            rw [List.flatMap_cons, List.append_eq_nil_iff] at hrest
            exact absurd (fragmentPackets_eq_nil hrest.1) (hframes f (by simp)).nonempty
      have hframe : s.frame = [] := by
        rcases hawaits with ⟨-, hframe⟩ | ⟨hne, -⟩
        · exact hframe
        · exact absurd rfl hne
      obtain ⟨input, frame, seq, calls⟩ := s
      obtain rfl : input = [] := hinput
      obtain rfl : frame = [] := hframe
      simp only [finish, pending, numbered, if_true, List.map_nil, List.append_nil,
        List.length_nil, Nat.add_zero]
      exact .refl
  | cons p ps ih =>
      have hlen' : ∀ p ∈ ps, p.payload.length < 2 ^ 32 := fun p hp => hlen p (by simp [hp])
      rw [List.flatMap_cons] at hinput
      cases hp : p.isFragment with
      | false =>
          rw [List.filter_cons_of_neg (by simp [hp])] at hfilter
          have hstep := readPacket_skip hp (hlen p (by simp)) hinput
          exact .head hstep (ih (s := { s with input := ps.flatMap Packet.bytes }) hlen' hframes
            hawaits hfilter rfl)
      | true =>
          rw [List.filter_cons_of_pos hp] at hfilter
          obtain ⟨num', f, fs', frames', rfl, hps, hframes', hawaits', hpending⟩ :=
            exists_next_fragment hframes hawaits hfilter.symm
          obtain ⟨hfirst, hcount, hsize⟩ : (num' = 0 → s.frame = []) ∧
              num' + (f :: fs').length ≤ 32768 ∧
              s.frame.length + (joined (f :: fs')).length ≤ maxFrameBytes := by
            rcases hawaits' with ⟨hnil, -⟩ | ⟨-, hrest⟩
            · cases hnil
            · exact hrest
          rw [List.length_cons] at hcount
          rw [joined, List.flatMap_cons, List.length_append] at hsize
          have hstep := readPacket_fragment (by omega) hfirst (by omega) hinput
          rw [hpending]
          cases fs' with
          | nil =>
              have hrest := ih hlen' hframes' (.inl ⟨rfl, rfl⟩) hps
                (s := ({ s with input := ps.flatMap Packet.bytes, frame := s.frame ++ f.2 } :
                  ReadLoop).handleFrame) rfl
              rw [finish_handleFrame] at hrest
              have heq : pending s.frame [f] frames' =
                  (s.frame ++ f.2) :: pending [] [] frames' := by
                simp [pending, joined]
              rw [heq]
              exact .head hstep hrest
          | cons g fs'' =>
              have hrest := ih hlen' hframes' (.inr ⟨by simp, by simp, ?_, ?_⟩) hps
                (s := { s with input := ps.flatMap Packet.bytes, frame := s.frame ++ f.2 }) rfl
              · have heq : pending s.frame (f :: g :: fs'') frames' =
                    pending (s.frame ++ f.2) (g :: fs'') frames' := by
                  simp [pending, joined]
                rw [heq]
                exact .head hstep hrest
              · omega
              · rw [List.length_append]
                change _ + (List.flatMap Prod.snd (g :: fs'')).length ≤ _
                omega

/-! ### The size of the buffer -/

/-- The buffer and every frame that was handed over have at most 8 MiB. -/
structure Bounded (s : ReadLoop) : Prop where
  frame : s.frame.length ≤ maxFrameBytes
  calls : ∀ c ∈ s.calls, c.2.length ≤ maxFrameBytes

theorem Bounded.handleFrame (h : s.Bounded) : s.handleFrame.Bounded := by
  refine ⟨Nat.zero_le _, fun c hc => ?_⟩
  rcases List.mem_append.mp hc with hc | hc
  · exact h.calls c hc
  · rw [List.mem_singleton.mp hc]
    exact h.frame

theorem length_of_readFull {n : Nat} {input data rest' : Bytes}
    (h : readFull n input = .ok (data, rest')) : data.length = n := by
  unfold readFull at h
  split_ifs at h
  cases h
  rw [List.length_take]
  omega

theorem readFragment_bounded (h : s.Bounded) (fragNum : BitVec 16) (dataLen : Nat) :
    Meets (s.readFragment fragNum dataLen) Bounded fun e => e.2.Bounded := by
  have hstart : (if fragNum &&& 0x7fff = 0 then [] else s.frame).length ≤ maxFrameBytes := by
    split_ifs
    · exact Nat.zero_le _
    · exact h.frame
  unfold readFragment
  generalize (if fragNum &&& 0x7fff = 0 then [] else s.frame) = frame at hstart
  dsimp only
  by_cases hlarge : maxFrameBytes < frame.length + dataLen
  · rw [if_pos hlarge]
    exact ⟨hstart, h.calls⟩
  · rw [if_neg hlarge]
    cases hread : readFull dataLen s.input with
    | error e =>
        refine ⟨?_, h.calls⟩
        rw [List.length_append, List.length_replicate]
        omega
    | ok r =>
        obtain ⟨data, input⟩ := r
        have hframe : (frame ++ data).length ≤ maxFrameBytes := by
          rw [List.length_append, length_of_readFull hread]
          omega
        have hnext : ({ s with input, frame := frame ++ data } : ReadLoop).Bounded :=
          ⟨hframe, h.calls⟩
        dsimp only
        split_ifs
        · exact hnext.handleFrame
        · exact hnext

/-- The bound holds however the turn ends. -/
theorem readPacket_bounded (h : s.Bounded) :
    Meets s.readPacket (Sum.elim Bounded fun _ => True) fun e => e.2.Bounded := by
  unfold readPacket
  split
  case h_1 => exact h
  case h_2 hdr input _ =>
    split_ifs
    · split
      case h_1 => exact h
      case h_2 fn input' _ =>
        have hs : ({ s with input := input' } : ReadLoop).Bounded := ⟨h.frame, h.calls⟩
        exact (readFragment_bounded hs _ _).map fun _ hs' => hs'
    · split
      case h_1 => exact h
      case h_2 input' _ => exact ⟨h.frame, h.calls⟩

/-- The loop hands over exactly the frames of the stream, in order, and has consumed the whole
stream when it ends; and on any input at all, the buffer and the frames that are handed over stay
within their bound. -/
theorem readLoop_reassembles (frames : List Fragments) (packets : List Packet)
    (hframes : ∀ f ∈ frames, ValidFrame f) (hlen : ∀ p ∈ packets, p.payload.length < 2 ^ 32)
    (hpackets : packets.filter Packet.isFragment = frames.flatMap (fragmentPackets 0)) :
    Loop.Returns readPacket { input := packets.flatMap Packet.bytes }
      (.error (.eof,
        { input := [], seq := frames.length, calls := numbered 0 (frames.map joined) })) ∧
    ∀ input, (∀ s, Loop.Visits readPacket { input } s → s.Bounded) ∧
      ∀ r, Loop.Returns readPacket { input } r →
        Meets r (fun _ => False) fun e => e.2.Bounded := by
  constructor
  · have hvisits := visits_packets (s := { input := packets.flatMap Packet.bytes }) hlen hframes
      (show Awaits 0 [] [] from .inl ⟨rfl, rfl⟩) hpackets rfl
    have hend : finish { input := packets.flatMap Packet.bytes } (pending [] [] frames) =
        { input := [], seq := frames.length, calls := numbered 0 (frames.map joined) } := by
      simp [finish, pending]
    rw [show ({ input := packets.flatMap Packet.bytes } : ReadLoop).frame = [] from rfl, hend]
      at hvisits
    exact hvisits.returns_iff.mpr (Loop.returns_fault rfl)
  · intro input
    have hinit : ({ input } : ReadLoop).Bounded := ⟨Nat.zero_le _, by simp⟩
    constructor
    · intro s hvisits
      exact hvisits.invariant (fun s hs => readPacket_bounded hs) hinit
    · intro r hr
      have hmeets := hr.meets (fun s hs => readPacket_bounded hs) hinit
      cases r with
      | ok out => exact out.elim
      | error e => exact hmeets

/-- One frame in two fragments, with a keyboard LED packet and a short fragment between them. -/
theorem readLoop_reassembles_two_fragments :
    Loop.Returns readPacket
      { input := [⟨5, 0, [0x00, 0x00, 0xaa]⟩, ⟨121, 0, [1]⟩, ⟨5, 0, [7]⟩,
          (⟨5, 0, [0x01, 0x80, 0xbb]⟩ : Packet)].flatMap Packet.bytes }
      (.error (.eof, { input := [], seq := 1, calls := [(1, [0xaa, 0xbb])] })) :=
  (readLoop_reassembles [[(0, [0xaa]), (0, [0xbb])]]
    [⟨5, 0, [0x00, 0x00, 0xaa]⟩, ⟨121, 0, [1]⟩, ⟨5, 0, [7]⟩, ⟨5, 0, [0x01, 0x80, 0xbb]⟩]
    (by
      intro f hf
      rw [List.mem_singleton.mp hf]
      exact ⟨by decide, by decide, by decide⟩)
    (by decide) (by rfl)).1

end ReadLoop

end Outband.Kvm.Ivtp
