import Mathlib.Data.Set.Function
import SqlAtlas.Cache
import SqlAtlas.Cache.Key

/-!
# What a cache holds, and under which keys

An entry of a cache is one that was put in. The bytes of a statement determine its dialect and its
text, and the hexadecimal form of a digest determines the digest. So where the digest tells the
bytes of some statements apart, the keys tell the statements apart.
-/

namespace SqlAtlas

set_option autoImplicit false

/-! ### Entries -/

namespace TtlCache

variable {κ α : Type} [DecidableEq κ]

theorem entries_erase_subset (c : TtlCache κ α) (k : κ) : (c.erase k).entries ⊆ c.entries :=
  List.filter_sublist.subset

theorem entries_get_subset (c : TtlCache κ α) (k : κ) : (c.get k).2.entries ⊆ c.entries := by
  rw [get]
  split
  · exact fun e he => he
  · split
    · exact c.entries_erase_subset k
    · exact fun e he => he

theorem mem_entries_of_get {c : TtlCache κ α} {k : κ} {v : α} (h : (c.get k).1 = some v) :
    ∃ e ∈ c.entries, e.key = k ∧ e.value = v := by
  rw [get] at h
  split at h
  · cases h
  · rename_i e he
    split at h
    · cases h
    · have hkey := List.find?_some he
      exact ⟨e, List.mem_of_find?_eq_some he, of_decide_eq_true hkey, Option.some.inj h⟩

theorem mem_entries_insert {c : TtlCache κ α} {k : κ} {v : α} {e : CacheEntry κ α}
    (h : e ∈ (c.insert k v).entries) : e ∈ c.entries ∨ e.key = k ∧ e.value = v := by
  rw [insert] at h
  split at h
  · exact .inl h
  · have hkept := List.mem_of_mem_drop h
    rcases List.mem_append.mp hkept with hold | hnew
    · exact .inl (c.entries_erase_subset k hold)
    · rw [List.mem_singleton.mp hnew]
      exact .inr ⟨rfl, rfl⟩

end TtlCache

/-! ### Keys -/

namespace Digest

theorem hex_cons (b : UInt8) (bs : List UInt8) :
    hex (b :: bs) = hexDigit (b.toNat / 16) :: hexDigit (b.toNat % 16) :: hex bs := rfl

theorem hexDigit_inj : ∀ m < 16, ∀ n < 16, hexDigit m = hexDigit n → m = n := by decide

theorem hex_injective : Function.Injective hex := by
  intro as
  induction as with
  | nil =>
    rintro (_ | ⟨b, bs⟩) h
    · rfl
    · rw [hex_cons] at h
      exact absurd h (List.cons_ne_nil _ _).symm
  | cons a as ih =>
    rintro (_ | ⟨b, bs⟩) h
    · rw [hex_cons] at h
      exact absurd h (List.cons_ne_nil _ _)
    · rw [hex_cons, hex_cons, List.cons.injEq, List.cons.injEq] at h
      obtain ⟨hhigh, hlow, hrest⟩ := h
      have ha := a.toNat_lt
      have hb := b.toNat_lt
      have hdiv := hexDigit_inj _ (by omega) _ (by omega) hhigh
      have hmod := hexDigit_inj _ (by omega) _ (by omega) hlow
      have hab : a = b := UInt8.toNat_inj.mp (by omega)
      rw [hab, ih hrest]

end Digest

theorem utf8Bytes_injective : Function.Injective utf8Bytes := by
  intro s t h
  apply String.ofList_injective
  rw [← String.toByteArray_inj, String.toByteArray_ofList, String.toByteArray_ofList]
  exact congrArg List.toByteArray h

/-- Lists that are cut at their first zero. -/
theorem append_zero_inj {xs ys as bs : List UInt8} (hx : 0 ∉ xs) (hy : 0 ∉ ys)
    (h : xs ++ 0 :: as = ys ++ 0 :: bs) : xs = ys ∧ as = bs := by
  induction xs generalizing ys with
  | nil =>
    cases ys with
    | nil => exact ⟨rfl, (List.cons.inj h).2⟩
    | cons y ys => exact absurd (List.cons.inj h).1 fun h0 => hy (h0 ▸ List.mem_cons_self)
  | cons x xs ih =>
    cases ys with
    | nil => exact absurd (List.cons.inj h).1 fun h0 => hx (h0 ▸ List.mem_cons_self)
    | cons y ys =>
      obtain ⟨hxy, hrest⟩ := List.cons.inj h
      obtain ⟨htail, has⟩ := ih (List.not_mem_of_not_mem_cons hx) (List.not_mem_of_not_mem_cons hy) hrest
      exact ⟨by rw [hxy, htail], has⟩

namespace Dialect

theorem zero_notMem_tag (d : Dialect) : 0 ∉ utf8Bytes d.tag.toList := by
  cases d <;> decide

theorem ofText?_tag (d : Dialect) : ofText? d.tag = some d := by
  cases d <;> decide

theorem tag_injective : Function.Injective tag := by
  intro d e h
  have hread := congrArg ofText? h
  rwa [ofText?_tag, ofText?_tag, Option.some.injEq] at hread

end Dialect

theorem statementBytes_inj {d e : Dialect} {s t : List Char}
    (h : statementBytes d s = statementBytes e t) : d = e ∧ s = t := by
  obtain ⟨htag, htext⟩ := append_zero_inj d.zero_notMem_tag e.zero_notMem_tag h
  have hname := String.toList_injective (utf8Bytes_injective htag)
  exact ⟨Dialect.tag_injective hname, utf8Bytes_injective htext⟩

/-- Keys tell apart the statements whose bytes the digest tells apart. -/
theorem statementKey_inj {used : Set (List UInt8)} (hinj : Set.InjOn Digest.sha256 used)
    {d e : Dialect} {s t : List Char} (hs : statementBytes d s ∈ used)
    (ht : statementBytes e t ∈ used) (h : statementKey d s = statementKey e t) : d = e ∧ s = t := by
  have hdigest := Digest.hex_injective (String.ofList_injective h)
  exact statementBytes_inj (hinj hs ht hdigest)

end SqlAtlas
