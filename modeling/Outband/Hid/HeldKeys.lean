import Mathlib.Data.Finset.Card
import Outband.Hid.ReportOrder

/-!
# The keys that are held

A keysym of any of the three classes is a call on one target, a modifier bit or
a usage, and several keysyms share a target. After any calls the modifier byte
consists of the bits whose latest call is a down, and the pressed list holds no
usage but those whose latest call is a down. It holds all of them as long as
there was always room: what is dropped for want of room is missing from the
list, and the up that follows does nothing.
-/

namespace Outband.Hid

open Kvm.Ivtp (Bytes)

/-! ### The latest of the selected calls -/

section Latest

variable {α : Type*} {p : α → Prop} [DecidablePred p] {calls : List (α × Bool)}

/-- The direction of the latest call on one of the selected arguments. -/
def latest (p : α → Prop) [DecidablePred p] (calls : List (α × Bool)) : Option Bool :=
  (calls.filter fun c => p c.1).getLast?.map Prod.snd

theorem latest_snoc (c : α × Bool) :
    latest p (calls ++ [c]) = if p c.1 then some c.2 else latest p calls := by
  unfold latest
  rw [List.filter_append]
  split_ifs with hp
  · simp [hp]
  · simp [hp]

/-- The latest of the selected calls is the latest call on its argument. -/
theorem exists_of_latest [DecidableEq α] {down : Bool} (h : latest p calls = some down) :
    ∃ a, p a ∧ (a, down) ∈ calls ∧ latest (· = a) calls = some down := by
  induction calls using List.reverseRecOn with
  | nil => cases h
  | append_singleton calls c ih =>
      rw [latest_snoc] at h
      split_ifs at h with hp
      · cases h
        refine ⟨c.1, hp, by simp, ?_⟩
        rw [latest_snoc, if_pos rfl]
      · obtain ⟨a, ha, hmem, hlatest⟩ := ih h
        refine ⟨a, ha, by simp [hmem], ?_⟩
        rw [latest_snoc, if_neg ?_]
        · exact hlatest
        · rintro rfl
          exact hp ha

end Latest

/-! ### The targets of the keysyms -/

/-- What a key moves: a modifier bit or the key of a usage. -/
inductive Target
  | modifier (bit : BitVec 8)
  | key (usage : BitVec 8)
  deriving DecidableEq, Repr

/-- The target of a keysym: its raw usage in the pass-through range, else by the tables. -/
def target (keysym : BitVec 32) : Option Target :=
  match usbUsageFromKeysym keysym with
  | some usage =>
      if modBitForUsage usage ≠ 0 then some (.modifier (modBitForUsage usage))
      else some (.key usage)
  | none =>
      if modBitFor keysym ≠ 0 then some (.modifier (modBitFor keysym))
      else if usageFor keysym ≠ 0 then some (.key (usageFor keysym))
      else none

/-- A target goes down or up. -/
def Held.move (h : Held) (down : Bool) : Target → Held
  | .modifier bit => h.setMod bit down
  | .key usage => h.setKey usage down

theorem Held.keyEvent_eq (h : Held) (keysym : BitVec 32) (down : Bool) :
    h.keyEvent keysym down = (target keysym).map (h.move down) := by
  unfold keyEvent target
  cases usbUsageFromKeysym keysym with
  | some usage =>
      dsimp only
      split_ifs <;> rfl
  | none =>
      dsimp only
      split_ifs <;> rfl

theorem modBitForUsage_bit (usage : BitVec 8) :
    modBitForUsage usage = 0 ∨ ∃ i < 8, modBitForUsage usage = 1#8 <<< i := by
  revert usage
  decide

theorem modBitFor_bit (keysym : BitVec 32) :
    modBitFor keysym = 0 ∨ ∃ i < 8, modBitFor keysym = 1#8 <<< i := by
  have htable : ∀ bit ∈ modifierKeysym.map Prod.snd, ∃ i < 8, bit = 1#8 <<< i := by decide
  unfold modBitFor
  cases hlookup : modifierKeysym.lookup keysym with
  | none => exact .inl rfl
  | some bit =>
      obtain ⟨before, after, heq, -⟩ := List.lookup_eq_some_iff.mp hlookup
      exact .inr (htable bit (by simp [heq]))

/-- A modifier is one bit. -/
theorem exists_of_target_modifier {keysym : BitVec 32} {bit : BitVec 8}
    (h : target keysym = some (.modifier bit)) : ∃ i < 8, bit = 1#8 <<< i := by
  unfold target at h
  cases husage : usbUsageFromKeysym keysym with
  | some usage =>
      rw [husage] at h
      dsimp only at h
      split_ifs at h with hbit
      · cases h
        exact (modBitForUsage_bit usage).resolve_left hbit
      · cases h
  | none =>
      rw [husage] at h
      dsimp only at h
      split_ifs at h with hbit
      · cases h
        exact (modBitFor_bit keysym).resolve_left hbit
      · cases h

theorem bit_inj {i j : Nat} (hi : i < 8) (hj : j < 8) (h : 1#8 <<< i = 1#8 <<< j) : i = j := by
  have hall : ∀ i j : Fin 8, 1#8 <<< i.val = 1#8 <<< j.val → i = j := by decide
  exact congrArg Fin.val (hall ⟨i, hi⟩ ⟨j, hj⟩ h)

/-! ### Runs of calls -/

/-- A call of `KeyEvent`. -/
abbrev KeyCall := BitVec 32 × Bool

/-- The state of the keys and the state that the last report shows, before any report that of a
keyboard on which nothing is held. -/
structure Played where
  held : Held := {}
  shown : Held := {}
  deriving DecidableEq

def Played.next (p : Played) (c : KeyCall) : Played :=
  let st := KeyEvent p.held c.1 c.2
  { held := st.held, shown := st.report.getD p.shown }

def play (calls : List KeyCall) : Played := calls.foldl Played.next {}

/-- The latest call on a target is a down. -/
def Down (t : Target) (calls : List KeyCall) : Prop :=
  latest (fun keysym => target keysym = some t) calls = some true

instance (t : Target) (calls : List KeyCall) : Decidable (Down t calls) :=
  inferInstanceAs (Decidable (_ = _))

/-- The usage of a call, when its keysym is no modifier. -/
def usageOf (c : KeyCall) : Option (BitVec 8) :=
  match target c.1 with
  | some (.key usage) => some usage
  | some (.modifier _) | none => none

/-- The usages that are down. -/
def downKeys (calls : List KeyCall) : Finset (BitVec 8) :=
  (calls.filterMap usageOf).toFinset.filter fun usage => Down (.key usage) calls

/-- A report shows the usages and the bits that are down: its key bytes are these usages and
zeros, and no usage stands in it twice. -/
structure ShowsDown (usb : Bytes) (calls : List KeyCall) : Prop where
  keys : ∀ usage, usage ≠ 0 → (usage ∈ usb.drop 2 ↔ Down (.key usage) calls)
  nodup : ((usb.drop 2).filter (· ≠ 0)).Nodup
  mods : ∀ i < 8, (usb[0]?.getD 0).getLsbD i = true ↔ Down (.modifier (1#8 <<< i)) calls

variable {calls : List KeyCall} {t : Target} {c : KeyCall} {usage : BitVec 8}

theorem down_snoc : Down t (calls ++ [c]) ↔
    if target c.1 = some t then c.2 = true else Down t calls := by
  unfold Down
  rw [latest_snoc]
  split_ifs <;> simp

theorem mem_downKeys : usage ∈ downKeys calls ↔ Down (.key usage) calls := by
  unfold downKeys
  rw [Finset.mem_filter, List.mem_toFinset, List.mem_filterMap]
  constructor
  · rintro ⟨-, hdown⟩
    exact hdown
  · intro hdown
    obtain ⟨keysym, htarget, hmem, -⟩ := exists_of_latest hdown
    exact ⟨⟨(keysym, true), hmem, by simp [usageOf, htarget]⟩, hdown⟩

theorem play_snoc (calls : List KeyCall) (c : KeyCall) :
    play (calls ++ [c]) = (play calls).next c := List.foldl_concat ..

/-- A call moves its target, and the report shows the result. -/
theorem Played.next_eq (p : Played) (hp : p.shown = p.held) (c : KeyCall) :
    p.next c = match target c.1 with
      | some t => ⟨p.held.move c.2 t, p.held.move c.2 t⟩
      | none => p := by
  unfold next KeyEvent
  rw [Held.keyEvent_eq]
  cases target c.1 with
  | some t => rfl
  | none =>
      cases p
      cases hp
      rfl

/-! ### What the calls keep -/

/-- The state consists of targets whose latest call is a down, and of all the bits that are. -/
structure Tracks (calls : List KeyCall) (p : Played) : Prop where
  shown : p.shown = p.held
  nodup : p.held.pressed.Nodup
  keys : ∀ usage ∈ p.held.pressed, Down (.key usage) calls
  mods : ∀ i < 8, p.held.mods.getLsbD i = true ↔ Down (.modifier (1#8 <<< i)) calls

theorem getLsbD_setMod (h : Held) {i j : Nat} (hi : i < 8) (hj : j < 8) (down : Bool) :
    (h.setMod (1#8 <<< j) down).mods.getLsbD i = if i = j then down else h.mods.getLsbD i := by
  have hbit : (1#8 <<< j).getLsbD i = decide (i = j) := by
    have hall : ∀ i j : Fin 8, (1#8 <<< j.val).getLsbD i.val = decide (i.val = j.val) := by decide
    exact hall ⟨i, hi⟩ ⟨j, hj⟩
  cases down with
  | true =>
      change (h.mods ||| 1#8 <<< j).getLsbD i = _
      rw [BitVec.getLsbD_or, hbit]
      by_cases hij : i = j <;> simp [hij]
  | false =>
      change (h.mods &&& ~~~(1#8 <<< j)).getLsbD i = _
      rw [BitVec.getLsbD_and, BitVec.getLsbD_not, hbit]
      by_cases hij : i = j <;> simp [hij, hi]

theorem mem_addKey {h : Held} {u : BitVec 8} (hu : u ∈ (h.addKey usage).pressed) :
    u = usage ∨ u ∈ h.pressed := by
  unfold Held.addKey at hu
  split_ifs at hu
  · exact .inr hu
  · exact (List.mem_append.mp hu).symm.imp_left List.mem_singleton.mp
  · exact .inr hu

theorem nodup_addKey {h : Held} (hh : h.pressed.Nodup) (usage : BitVec 8) :
    (h.addKey usage).pressed.Nodup := by
  unfold Held.addKey
  split_ifs with hmem
  · exact hh
  · exact List.nodup_append.mpr ⟨hh, List.nodup_singleton _, by
      intro a ha b hb
      rw [List.mem_singleton.mp hb]
      rintro rfl
      exact hmem ha⟩
  · exact hh

/-- A key goes down or up. -/
theorem Tracks.key {p : Played} (hp : Tracks calls p)
    (ht : target c.1 = some (.key usage)) :
    Tracks (calls ++ [c]) ⟨p.held.setKey usage c.2, p.held.setKey usage c.2⟩ := by
  have hother (u : BitVec 8) (hu : u ≠ usage) :
      Down (.key u) (calls ++ [c]) ↔ Down (.key u) calls := by
    rw [down_snoc, if_neg]
    rw [ht]
    simpa using hu.symm
  have hmods (i : Nat) (hi : i < 8) :
      p.held.mods.getLsbD i = true ↔ Down (.modifier (1#8 <<< i)) (calls ++ [c]) := by
    rw [down_snoc, if_neg (by simp [ht])]
    exact hp.mods i hi
  cases hdown : c.2 with
  | true =>
      have hthis : Down (.key usage) (calls ++ [c]) := by
        rw [down_snoc, if_pos ht, hdown]
      have hheld : (p.held.addKey usage).mods = p.held.mods := by
        unfold Held.addKey
        split_ifs <;> rfl
      refine ⟨rfl, nodup_addKey hp.nodup usage, ?_, ?_⟩
      · intro u hu
        by_cases hne : u = usage
        · rw [hne]
          exact hthis
        · exact (hother u hne).mpr (hp.keys u ((mem_addKey hu).resolve_left hne))
      · change ∀ i < 8, (p.held.addKey usage).mods.getLsbD i = true ↔ _
        rw [hheld]
        exact hmods
  | false =>
      refine ⟨rfl, hp.nodup.erase usage, ?_, hmods⟩
      intro u hu
      obtain ⟨hne, hmem⟩ := hp.nodup.mem_erase_iff.mp hu
      exact (hother u hne).mpr (hp.keys u hmem)

/-- A modifier goes down or up. -/
theorem Tracks.modifier {p : Played} {bit : BitVec 8} (hp : Tracks calls p)
    (ht : target c.1 = some (.modifier bit)) :
    Tracks (calls ++ [c]) ⟨p.held.setMod bit c.2, p.held.setMod bit c.2⟩ := by
  obtain ⟨j, hj, rfl⟩ := exists_of_target_modifier ht
  refine ⟨rfl, hp.nodup, ?_, ?_⟩
  · intro u hu
    rw [down_snoc, if_neg (by simp [ht])]
    exact hp.keys u hu
  · intro i hi
    rw [down_snoc, ht, getLsbD_setMod _ hi hj]
    by_cases hij : i = j
    · simp [hij]
    · rw [if_neg hij, if_neg ?_]
      · exact hp.mods i hi
      · intro heq
        exact hij (bit_inj hi hj (Target.modifier.inj (Option.some.inj heq)).symm)

/-- The state tracks every sequence of calls. -/
theorem tracks_play (calls : List KeyCall) : Tracks calls (play calls) := by
  induction calls using List.reverseRecOn with
  | nil => exact ⟨rfl, List.nodup_nil, nofun, by decide⟩
  | append_singleton calls c ih =>
      rw [play_snoc, Played.next_eq _ ih.shown]
      cases ht : target c.1 with
      | none =>
          have hsame (t : Target) : Down t (calls ++ [c]) ↔ Down t calls := by
            rw [down_snoc, if_neg (by simp [ht])]
          refine ⟨ih.shown, ih.nodup, ?_, ?_⟩
          · intro u hu
            exact (hsame _).mpr (ih.keys u hu)
          · intro i hi
            rw [hsame]
            exact ih.mods i hi
      | some t =>
          cases t with
          | modifier bit => exact ih.modifier ht
          | key usage => exact ih.key ht

theorem mem_addKey_of_mem {h : Held} {u : BitVec 8} (hu : u ∈ h.pressed) (usage : BitVec 8) :
    u ∈ (h.addKey usage).pressed := by
  unfold Held.addKey
  split_ifs
  · exact hu
  · exact List.mem_append_left _ hu
  · exact hu

theorem mem_addKey_self {h : Held} (hroom : usage ∈ h.pressed ∨ h.pressed.length < 6) :
    usage ∈ (h.addKey usage).pressed := by
  unfold Held.addKey
  split_ifs with hmem hlt
  · exact hmem
  · simp
  · exact absurd (hroom.resolve_left hmem) hlt

/-- When the usages that are down are no more than six, there is room for a new one. -/
theorem Tracks.room {p : Played} (hp : Tracks calls p) (ht : target c.1 = some (.key usage))
    (hdown : c.2 = true) (hcard : (downKeys (calls ++ [c])).card ≤ 6) :
    usage ∈ p.held.pressed ∨ p.held.pressed.length < 6 := by
  by_cases hmem : usage ∈ p.held.pressed
  · exact .inl hmem
  · right
    have hsub : (usage :: p.held.pressed).toFinset ⊆ downKeys (calls ++ [c]) := by
      intro u hu
      rw [List.mem_toFinset, List.mem_cons] at hu
      rw [mem_downKeys, down_snoc, ht]
      split_ifs with heq
      · exact hdown
      · refine hp.keys u (hu.resolve_left ?_)
        rintro rfl
        exact heq rfl
    have hcount := (Finset.card_le_card hsub).trans hcard
    rw [List.toFinset_card_of_nodup (List.nodup_cons.mpr ⟨hmem, hp.nodup⟩)] at hcount
    exact hcount

/-- With room for all of them, every usage that is down is in the list. -/
theorem mem_pressed_of_down (hroom : ∀ p, p <+: calls → (downKeys p).card ≤ 6)
    (hdown : Down (.key usage) calls) : usage ∈ (play calls).held.pressed := by
  induction calls using List.reverseRecOn with
  | nil => cases hdown
  | append_singleton calls c ih =>
      have hroom' : ∀ p, p <+: calls → (downKeys p).card ≤ 6 := fun p hp =>
        hroom p (hp.trans (List.prefix_append calls [c]))
      have htracks := tracks_play calls
      rw [play_snoc, Played.next_eq _ htracks.shown]
      rw [down_snoc] at hdown
      cases ht : target c.1 with
      | none =>
          rw [if_neg (by simp [ht])] at hdown
          exact ih hroom' hdown
      | some t =>
          cases t with
          | modifier bit =>
              rw [if_neg (by simp [ht])] at hdown
              exact ih hroom' hdown
          | key v =>
              change usage ∈ ((play calls).held.setKey v c.2).pressed
              by_cases hv : v = usage
              · subst hv
                rw [if_pos ht] at hdown
                rw [hdown]
                exact mem_addKey_self (htracks.room ht hdown (hroom _ List.prefix_rfl))
              · rw [if_neg (by simpa [ht] using hv)] at hdown
                have hmem := ih hroom' hdown
                cases c.2 with
                | true => exact mem_addKey_of_mem hmem v
                | false => exact htracks.nodup.mem_erase_iff.mpr ⟨Ne.symm hv, hmem⟩

/-! ### The reports -/

theorem drop_usb (h : Held) :
    h.usb.drop 2 = h.pressed ++ List.replicate (6 - h.pressed.length) 0 := by
  rw [Held.usb_eq]
  rfl

/-- A state that holds what is down is reported as such. -/
theorem Tracks.showsDown {p : Played} (hp : Tracks calls p)
    (hall : ∀ usage, Down (.key usage) calls → usage ∈ p.held.pressed) :
    ShowsDown p.held.usb calls := by
  refine ⟨?_, ?_, ?_⟩
  · intro usage hne
    rw [drop_usb, List.mem_append, List.mem_replicate]
    constructor
    · rintro (hmem | ⟨-, rfl⟩)
      · exact hp.keys usage hmem
      · exact absurd rfl hne
    · intro hdown
      exact .inl (hall usage hdown)
  · rw [drop_usb, List.filter_append]
    simpa using hp.nodup.filter _
  · intro i hi
    rw [Held.usb_eq]
    exact hp.mods i hi

/-- When no target is down, nothing is held. -/
theorem Tracks.released {p : Played} (hp : Tracks calls p) (hup : ∀ t, ¬Down t calls) :
    p.held.usb = List.replicate 8 0 := by
  have hmods : p.held.mods = 0#8 := by
    apply BitVec.eq_of_getLsbD_eq
    intro i hi
    rw [BitVec.getLsbD_zero, Bool.eq_false_iff]
    exact fun h => hup _ ((hp.mods i hi).mp h)
  have hpressed : p.held.pressed = [] := by
    rw [List.eq_nil_iff_forall_not_mem]
    exact fun u hu => hup _ (hp.keys u hu)
  rw [Held.usb_eq, hmods, hpressed]
  rfl

/-- The pressed list never holds more than six usages or one of them twice. As long as no more
than six usages are down, each report shows what is down; and once the latest call on every
keysym is an up, the report is all zero. -/
theorem held_faithful (dev : Device) (seq : BitVec 32) (calls : List KeyCall) :
    (play calls).held.pressed.Nodup ∧ (play calls).held.pressed.length ≤ 6 ∧
    ((∀ p, p <+: calls → (downKeys p).card ≤ 6) →
      ∀ p, p <+: calls → ShowsDown (dev.usbOf (dev.report seq (play p).shown)) p) ∧
    ((∀ c ∈ calls, latest (· = c.1) calls = some false) →
      dev.usbOf (dev.report seq (play calls).shown) = List.replicate 8 0) := by
  refine ⟨(tracks_play calls).nodup, (play calls).held.room, ?_, ?_⟩
  · intro hroom p hp
    have htracks := tracks_play p
    rw [usbOf_report, htracks.shown]
    exact htracks.showsDown fun usage => mem_pressed_of_down fun q hq => hroom q (hq.trans hp)
  · intro hup
    have htracks := tracks_play calls
    rw [usbOf_report, htracks.shown]
    refine htracks.released ?_
    intro t hdown
    obtain ⟨keysym, -, hmem, hlatest⟩ := exists_of_latest hdown
    have := (hup _ hmem).symm.trans hlatest
    simp at this

/-- Both letter cases of one key, let go one after the other. -/
theorem held_faithful_letters :
    Device.ilo.usbOf (Device.ilo.report 0 (play [(0x61, true), (0x41, true), (0x61, false),
      (0x41, false)]).shown) = List.replicate 8 0 := by
  refine (held_faithful .ilo 0
    [(0x61, true), (0x41, true), (0x61, false), (0x41, false)]).2.2.2 ?_
  intro c hc
  have hcalls : c.1 = 0x61 ∨ c.1 = 0x41 := by
    simp only [List.mem_cons, List.not_mem_nil, or_false] at hc
    rcases hc with rfl | rfl | rfl | rfl <;> simp
  rcases hcalls with h | h
  · rw [h]
    rfl
  · rw [h]
    rfl

end Outband.Hid
