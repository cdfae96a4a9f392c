import Webserveau.CgiSections
import Webserveau.HeadReference

/-!
Names of header fields.
The order of the header maps is a strict weak order whose incomparable names are those that
agree byte by byte up to the case of ASCII letters. A header map holds each name once, in
whatever letter case, and a change under one name is seen under no other.
-/
namespace Webserveau.HeaderNames

open ByteStrings OrderedMaps Formats Requests HeadReference CgiSections

/-- A name as it is compared through `c_str`: no byte of it is NUL. -/
structure HeaderName where
  bytes : Bytes
  nul_free : 0 ∉ bytes

instance : Coe HeaderName Bytes := ⟨HeaderName.bytes⟩

/-- Two bytes that are equal, or one ASCII letter in two cases. -/
def SameLetter (c d : UInt8) : Prop :=
  c = d ∨ (65 ≤ c ∧ c ≤ 90 ∧ d = c + 32) ∨ 65 ≤ d ∧ d ≤ 90 ∧ c = d + 32

/-- Names of one length that agree byte by byte up to letter case. -/
def Spelled (a b : Bytes) : Prop :=
  a.length = b.length ∧ ∀ (i : ℕ) (c d : UInt8), a[i]? = some c → b[i]? = some d → SameLetter c d

theorem lowercase_eq_iff (c d : UInt8) : lowercase c = lowercase d ↔ SameLetter c d := by
  unfold lowercase SameLetter
  simp only [UInt8.le_iff_toNat_le, ← UInt8.toNat_inj]
  have hc := UInt8.toNat_lt c
  have hd := UInt8.toNat_lt d
  split <;> split <;> simp [UInt8.toNat_add] at * <;> omega

/-- The code folds names byte by byte. -/
theorem sameName_iff (a b : Bytes) : SameName a b ↔ Spelled a b := by
  unfold SameName Spelled
  constructor
  · intro h
    have hlength : a.length = b.length := by simpa using congrArg List.length h
    refine ⟨hlength, ?_⟩
    intro i c d hc hd
    have hi := congrArg (fun s : Bytes => s[i]?) h
    simp only [List.getElem?_map, hc, hd, Option.map_some, Option.some.injEq] at hi
    exact (lowercase_eq_iff c d).mp hi
  · intro ⟨hlength, hbytes⟩
    apply List.ext_getElem?
    intro i
    rw [List.getElem?_map, List.getElem?_map]
    cases hc : a[i]? with
    | none =>
      have hout : b[i]? = none := by
        rw [List.getElem?_eq_none_iff] at hc ⊢
        omega
      rw [hout]
    | some c =>
      have hi : i < b.length := by
        have hlt := (List.getElem?_eq_some_iff.mp hc).1
        omega
      have hd := List.getElem?_eq_getElem hi
      rw [hd, Option.map_some, Option.map_some, (lowercase_eq_iff c _).mpr (hbytes i c _ hc hd)]

theorem same_iff_spelled (a b : HeaderName) : Same iLess a b = true ↔ Spelled a b := by
  rw [same_iff_sameName a.nul_free b.nul_free, sameName_iff]

theorem iLess_irrefl (a : Bytes) : iLess a a = false := not_less_self a

theorem iLess_trans {a b c : Bytes} (hab : iLess a b = true) (hbc : iLess b c = true) :
    iLess a c = true :=
  IsTrans.trans (r := fun a b => iLess a b = true) a b c hab hbc

theorem iLess_asymm {a b : Bytes} (h : iLess a b = true) : iLess b a = false := by
  rw [Bool.eq_false_iff]
  intro hback
  have hself := iLess_trans h hback
  rw [iLess_irrefl] at hself
  cases hself

/-- Between two maps one name changes its value, in every letter case, and no other does. -/
def Assigns (m m' : HeaderMap) (a : HeaderName) (value : Option Bytes) : Prop :=
  ∀ b : HeaderName, (Spelled a b → m'.find? b = value) ∧ (¬ Spelled a b → m'.find? b = m.find? b)

theorem assigns_insert (m : HeaderMap) (a : HeaderName) (value : Bytes) :
    Assigns m (m.insert a value) a (some value) := by
  intro b
  rw [← same_iff_spelled]
  constructor
  · exact OrderedMap.find?_insert_same m value
  · intro h
    exact OrderedMap.find?_insert_of_not_same m value (by simpa using h)

theorem assigns_erase (m : HeaderMap) (a : HeaderName) : Assigns m (m.erase a) a none := by
  intro b
  rw [← same_iff_spelled]
  constructor
  · exact OrderedMap.find?_erase_same m
  · intro h
    exact OrderedMap.find?_erase_of_not_same m (by simpa using h)

/-- What is found under a name is the value of the one entry with the name. -/
theorem find?_eq_some_iff (m : HeaderMap) (hm : ∀ e ∈ m.entries, 0 ∉ e.1) (a : HeaderName)
    (value : Bytes) :
    m.find? a = some value ↔ ∃ e ∈ m.entries, Spelled e.1 a ∧ e.2 = value := by
  constructor
  · intro h
    obtain ⟨e, hfound, hvalue⟩ := Option.map_eq_some_iff.mp h
    have hmem := List.mem_of_find?_eq_some hfound
    have hsame : Same iLess e.1 a = true := by simpa using List.find?_some hfound
    exact ⟨e, hmem, (same_iff_spelled ⟨e.1, hm e hmem⟩ a).mp hsame, hvalue⟩
  · intro ⟨e, he, hspelled, hvalue⟩
    have hsame := (same_iff_spelled ⟨e.1, hm e he⟩ a).mpr hspelled
    rw [← OrderedMap.find?_congr m hsame, OrderedMap.find?_of_mem m he, hvalue]

/-- No two entries of a map have one name. -/
theorem entry_unique (m : HeaderMap) (hm : ∀ e ∈ m.entries, 0 ∉ e.1) {d e : Bytes × Bytes}
    (hd : d ∈ m.entries) (he : e ∈ m.entries) (h : Spelled d.1 e.1) : d = e := by
  have hsame := (same_iff_spelled ⟨d.1, hm d hd⟩ ⟨e.1, hm e he⟩).mpr h
  obtain ⟨j, -, hfilter⟩ := OrderedMap.filter_same (OrderedMap.find?_of_mem m hd)
  have hfirst : d ∈ m.entries.filter fun x => Same iLess x.1 d.1 :=
    List.mem_filter.mpr ⟨hd, same_refl d.1⟩
  have hsecond : e ∈ m.entries.filter fun x => Same iLess x.1 d.1 :=
    List.mem_filter.mpr ⟨he, by rwa [same_comm]⟩
  rw [hfilter, List.mem_singleton] at hfirst hsecond
  exact hfirst.trans hsecond.symm

/-- A header line of a cgi process that is no cookie. -/
theorem assigns_taken (p : CgiReader) {line : Bytes} (hnul : 0 ∉ fieldKey line)
    (hcookie : ¬ Spelled COOKIE (fieldKey line)) :
    Assigns p.headers (taken p line).headers ⟨fieldKey line, hnul⟩ (some (fieldText line)) := by
  have hother : ¬ CgiSections.Alike COOKIE (fieldKey line) := by
    rw [alike_iff (by decide) hnul]
    intro hnamed
    exact hcookie ((sameName_iff _ _).mp (Eq.symm hnamed))
  unfold taken
  rw [if_neg hother]
  exact assigns_insert p.headers ⟨fieldKey line, hnul⟩ (fieldText line)

/-- Header names are ordered lawfully and the maps of header fields go by them. -/
theorem header_names_lawful :
    ((∀ a : HeaderName, iLess a a = false) ∧
      (∀ a b : HeaderName, iLess a b = true → iLess b a = false) ∧
      (∀ a b c : HeaderName, iLess a b = true → iLess b c = true → iLess a c = true) ∧
      (∀ a b c : HeaderName, Same iLess a b = true → Same iLess b c = true →
        Same iLess a c = true)) ∧
    (∀ a b : HeaderName, Same iLess a b = true ↔ Spelled a b) ∧
    (∀ m : HeaderMap, (∀ e ∈ m.entries, 0 ∉ e.1) →
      (∀ (a : HeaderName) value, m.find? a = some value ↔
        ∃ e ∈ m.entries, Spelled e.1 a ∧ e.2 = value) ∧
      ∀ d ∈ m.entries, ∀ e ∈ m.entries, Spelled d.1 e.1 → d = e) ∧
    (∀ (m : HeaderMap) (a : HeaderName) (value : Bytes),
      Assigns m (m.insert a value) a (some value) ∧ Assigns m (m.erase a) a none) ∧
    (∀ (r : Request) (a : HeaderName) (value : Bytes),
      Assigns r.headers (r.storeHeader a value).headers a
        (some (joinValue (r.getHeader a) value)) ∧
      Assigns r.headers (r.removeHeader a).headers a none) ∧
    (∀ (hints : ResHints) (a : HeaderName) (value : Bytes),
      Assigns hints.headers (hints.addHeader a value).headers a (some value)) ∧
    ∀ (p : CgiReader) (line : Bytes) (hnul : 0 ∉ fieldKey line), 58 ∈ line →
      ¬ Spelled COOKIE (fieldKey line) →
      ∃ p', CgiReader.extractHeader
          { p with line := line, index := p.index + (line.length + 2) } = .ok (0, p') ∧
        Assigns p.headers p'.headers ⟨fieldKey line, hnul⟩ (some (fieldText line)) := by
  refine ⟨⟨?_, ?_, ?_, ?_⟩, same_iff_spelled, ?_, ?_, ?_, ?_, ?_⟩
  · exact fun a => iLess_irrefl a
  · exact fun a b => iLess_asymm
  · exact fun a b c => iLess_trans
  · exact fun a b c => same_trans
  · exact fun m hm => ⟨find?_eq_some_iff m hm, fun d hd e he => entry_unique m hm hd he⟩
  · exact fun m a value => ⟨assigns_insert m a value, assigns_erase m a⟩
  · exact fun r a value => ⟨assigns_insert r.headers a _, assigns_erase r.headers a⟩
  · exact fun hints a value => assigns_insert hints.headers a value
  · intro p line hnul hcolon hcookie
    exact ⟨taken p line, extractHeader_eq p hcolon, assigns_taken p hnul hcookie⟩

end Webserveau.HeaderNames
