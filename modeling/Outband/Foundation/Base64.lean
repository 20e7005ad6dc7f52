import Mathlib.Data.BitVec
import Mathlib.Data.List.Nodup

/-!
# Base64 for URLs, without padding

Three bytes are written as four characters of six bits each. One or two bytes at the end are
written as two or three characters, and no padding follows. Different byte strings have different
texts.
-/

namespace Outband.Foundation

/-- The characters of the alphabet for URLs and file names, by value. -/
def urlAlphabet : List Char :=
  "ABCDEFGHIJKLMNOPQRSTUVWXYZabcdefghijklmnopqrstuvwxyz0123456789-_".toList

def urlChar (sextet : Nat) : Char := urlAlphabet.getD sextet 'A'

def rawUrlChars : List (BitVec 8) → List Char
  | [] => []
  | [a] => [urlChar (a.toNat / 4), urlChar (a.toNat % 4 * 16)]
  | [a, b] =>
      [urlChar (a.toNat / 4), urlChar (a.toNat % 4 * 16 + b.toNat / 16),
        urlChar (b.toNat % 16 * 4)]
  | a :: b :: c :: rest =>
      urlChar (a.toNat / 4) :: urlChar (a.toNat % 4 * 16 + b.toNat / 16) ::
        urlChar (b.toNat % 16 * 4 + c.toNat / 64) :: urlChar (c.toNat % 64) :: rawUrlChars rest

theorem urlChar_inj {m n : Nat} (hm : m < 64) (hn : n < 64) (h : urlChar m = urlChar n) :
    m = n := by
  have hnodup : urlAlphabet.Nodup := by decide
  have hm : m < urlAlphabet.length := hm
  have hn : n < urlAlphabet.length := hn
  rw [urlChar, urlChar, List.getD_eq_getElem?_getD, List.getD_eq_getElem?_getD,
    List.getElem?_eq_getElem hm, List.getElem?_eq_getElem hn] at h
  exact (List.Nodup.getElem_inj_iff hnodup).mp h

/-- The first characters give a byte back. -/
theorem first_inj {a a' x x' : Nat} (ha : a < 256) (ha' : a' < 256) (hx : x < 16) (hx' : x' < 16)
    (h₁ : urlChar (a / 4) = urlChar (a' / 4))
    (h₂ : urlChar (a % 4 * 16 + x) = urlChar (a' % 4 * 16 + x')) : a = a' ∧ x = x' := by
  have hhigh := urlChar_inj (by omega) (by omega) h₁
  have hlow := urlChar_inj (by omega) (by omega) h₂
  omega

theorem second_inj {b b' x x' : Nat} (hx : x < 4) (hx' : x' < 4)
    (hhigh : b / 16 = b' / 16) (h : urlChar (b % 16 * 4 + x) = urlChar (b' % 16 * 4 + x')) :
    b = b' ∧ x = x' := by
  have hlow := urlChar_inj (by omega) (by omega) h
  omega

theorem rawUrlChars_injective : Function.Injective rawUrlChars := by
  intro bytes
  induction bytes using rawUrlChars.induct with
  | case1 =>
      intro bytes' h
      cases bytes' using rawUrlChars.fun_cases with
      | case1 => rfl
      | _ => simp [rawUrlChars] at h
  | case2 a =>
      intro bytes' h
      cases bytes' using rawUrlChars.fun_cases with
      | case2 a' =>
          simp only [rawUrlChars, List.cons.injEq, and_true] at h
          have hnone : 0 < 16 := by decide
          have ha := first_inj a.isLt a'.isLt hnone hnone h.1 h.2
          rw [BitVec.eq_of_toNat_eq ha.1]
      | _ => simp [rawUrlChars] at h
  | case3 a b =>
      intro bytes' h
      cases bytes' using rawUrlChars.fun_cases with
      | case3 a' b' =>
          simp only [rawUrlChars, List.cons.injEq, and_true] at h
          have ha := first_inj a.isLt a'.isLt (by omega) (by omega) h.1 h.2.1
          have hnone : 0 < 4 := by decide
          have hb := second_inj hnone hnone ha.2 h.2.2
          rw [BitVec.eq_of_toNat_eq ha.1, BitVec.eq_of_toNat_eq hb.1]
      | _ => simp [rawUrlChars] at h
  | case4 a b c rest ih =>
      intro bytes' h
      cases bytes' using rawUrlChars.fun_cases with
      | case4 a' b' c' rest' =>
          simp only [rawUrlChars, List.cons.injEq] at h
          have ha := first_inj a.isLt a'.isLt (by omega) (by omega) h.1 h.2.1
          have hb := second_inj (by omega) (by omega) ha.2 h.2.2.1
          have hc := urlChar_inj (by omega) (by omega) h.2.2.2.1
          have hc : c.toNat = c'.toNat := by omega
          rw [BitVec.eq_of_toNat_eq ha.1, BitVec.eq_of_toNat_eq hb.1, BitVec.eq_of_toNat_eq hc,
            ih h.2.2.2.2]
      | _ => simp [rawUrlChars] at h

end Outband.Foundation
