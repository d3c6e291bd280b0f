import Mathlib.Data.List.Nodup

/-!
# Headers: Alamofire's `HTTPHeaders`

A list of headers in which no two names differ in nothing but case. A header that is updated
keeps its place, a new one is the last.
-/
namespace Karupasu.Provider

def lowercased (s : String) : String := String.ofList (s.toList.map Char.toLower)

structure HTTPHeader where
  name : String
  value : String
  deriving DecidableEq

def HTTPHeader.lowercasedName (header : HTTPHeader) : String := lowercased header.name

/-- An order-preserving and case-insensitive representation of headers. -/
structure HTTPHeaders where
  headers : List HTTPHeader
  distinct : (headers.map HTTPHeader.lowercasedName).Nodup

namespace HTTPHeaders

/-! ## Updating a list of headers -/

def index (headers : List HTTPHeader) (name : String) : Option Nat :=
  headers.findIdx? fun header => header.lowercasedName = lowercased name

/-- `update(_ header:)` on the array. -/
def updated (headers : List HTTPHeader) (header : HTTPHeader) : List HTTPHeader :=
  match index headers header.name with
  | some i => headers.set i header
  | none => headers ++ [header]

theorem updated_nil (header : HTTPHeader) : updated [] header = [header] := rfl

theorem updated_cons_same {h header : HTTPHeader} (hn : h.lowercasedName = header.lowercasedName)
    (headers : List HTTPHeader) : updated (h :: headers) header = header :: headers := by
  have hi : index (h :: headers) header.name = some 0 := by
    rw [index, List.findIdx?_cons, if_pos]
    exact decide_eq_true hn
  rw [updated, hi]
  rfl

theorem updated_cons_other {h header : HTTPHeader} (hn : h.lowercasedName ≠ header.lowercasedName)
    (headers : List HTTPHeader) : updated (h :: headers) header = h :: updated headers header := by
  have hi : index (h :: headers) header.name = (index headers header.name).map (· + 1) := by
    rw [index, List.findIdx?_cons, if_neg]
    · rfl
    · exact fun he => hn (of_decide_eq_true he)
  unfold updated
  rw [hi]
  cases index headers header.name <;> rfl

theorem mem_lowercasedNames_updated (headers : List HTTPHeader) (header : HTTPHeader) (n : String) :
    n ∈ (updated headers header).map HTTPHeader.lowercasedName ↔
      n ∈ headers.map HTTPHeader.lowercasedName ∨ n = header.lowercasedName := by
  induction headers with
  | nil => simp [updated_nil]
  | cons h headers ih =>
    by_cases hn : h.lowercasedName = header.lowercasedName
    · rw [updated_cons_same hn, List.map_cons, List.map_cons, List.mem_cons, List.mem_cons, hn]
      tauto
    · rw [updated_cons_other hn, List.map_cons, List.map_cons, List.mem_cons, List.mem_cons, ih,
        or_assoc]

theorem nodup_updated {headers : List HTTPHeader}
    (hd : (headers.map HTTPHeader.lowercasedName).Nodup) (header : HTTPHeader) :
    ((updated headers header).map HTTPHeader.lowercasedName).Nodup := by
  induction headers with
  | nil => exact List.nodup_singleton _
  | cons h headers ih =>
    obtain ⟨hnot, hd⟩ := List.nodup_cons.mp hd
    by_cases hn : h.lowercasedName = header.lowercasedName
    · rw [updated_cons_same hn]
      exact List.nodup_cons.mpr ⟨hn ▸ hnot, hd⟩
    · rw [updated_cons_other hn]
      refine List.nodup_cons.mpr ⟨fun hmem => ?_, ih hd⟩
      obtain hmem | he := (mem_lowercasedNames_updated headers header _).mp hmem
      · exact hnot hmem
      · exact hn he

/-! ## Headers -/

def empty : HTTPHeaders := ⟨[], List.nodup_nil⟩

def update (h : HTTPHeaders) (header : HTTPHeader) : HTTPHeaders :=
  ⟨updated h.headers header, nodup_updated h.distinct header⟩

def value (h : HTTPHeaders) (name : String) : Option String :=
  (index h.headers name).bind fun i => h.headers[i]?.map (·.value)

/-- `HTTPHeaders.init(_ headers: [HTTPHeader])` -/
def ofHeaders (headers : List HTTPHeader) : HTTPHeaders := headers.foldl update empty

/-- `HTTPHeaders.init(_ dictionary: [String: String])` -/
def ofDictionary (dictionary : List (String × String)) : HTTPHeaders :=
  ofHeaders (dictionary.map fun p => ⟨p.1, p.2⟩)

def dictionary (h : HTTPHeaders) : List (String × String) :=
  h.headers.map fun header => (header.name, header.value)

@[ext]
theorem ext {h h' : HTTPHeaders} (he : h.headers = h'.headers) : h = h' := by
  obtain ⟨headers, hd⟩ := h
  obtain ⟨headers', hd'⟩ := h'
  obtain rfl : headers = headers' := he
  rfl

/-- The first header of a name is the one that is found. -/
theorem value_eq (h : HTTPHeaders) (name : String) :
    h.value name = (h.headers.find? fun header => header.lowercasedName = lowercased name).map
      (·.value) := by
  obtain ⟨headers, hd⟩ := h
  unfold value
  induction headers with
  | nil => rfl
  | cons header headers ih =>
    by_cases hn : header.lowercasedName = lowercased name
    · simp [index, List.findIdx?_cons, hn]
    · have ih := ih (List.nodup_cons.mp hd).2
      simp only [index, List.findIdx?_cons, hn, decide_false, List.find?_cons] at ih ⊢
      rw [← ih]
      simp only [Bool.false_eq_true, if_false]
      cases List.findIdx? (fun header => decide (header.lowercasedName = lowercased name)) headers <;>
        rfl

/-- An updated header has its new value, whatever the case of its name; no other value changes. -/
theorem value_update (h : HTTPHeaders) (header : HTTPHeader) (name : String) :
    (h.update header).value name =
      if header.lowercasedName = lowercased name then some header.value else h.value name := by
  rw [value_eq, value_eq]
  show ((updated h.headers header).find? _).map _ = _
  generalize h.headers = headers
  induction headers with
  | nil =>
    rw [updated_nil]
    by_cases hn : header.lowercasedName = lowercased name
    · simp [hn]
    · simp [hn]
  | cons g headers ih =>
    by_cases hg : g.lowercasedName = header.lowercasedName
    · rw [updated_cons_same hg]
      by_cases hn : header.lowercasedName = lowercased name
      · simp [hn]
      · simp [hg, hn]
    · rw [updated_cons_other hg]
      by_cases hgn : g.lowercasedName = lowercased name
      · have hn : header.lowercasedName ≠ lowercased name := fun hn => hg (hgn.trans hn.symm)
        simp [hgn, hn]
      · simpa [hgn] using ih

theorem updated_of_not_mem {headers : List HTTPHeader} {header : HTTPHeader}
    (h : header.lowercasedName ∉ headers.map HTTPHeader.lowercasedName) :
    updated headers header = headers ++ [header] := by
  induction headers with
  | nil => rfl
  | cons g headers ih =>
    rw [List.map_cons, List.mem_cons, not_or] at h
    rw [updated_cons_other (fun he => h.1 he.symm), ih h.2, List.cons_append]

/-- Headers whose names differ in more than case are all kept, in order. -/
theorem headers_ofHeaders {headers : List HTTPHeader}
    (hd : (headers.map HTTPHeader.lowercasedName).Nodup) :
    (ofHeaders headers).headers = headers := by
  unfold ofHeaders
  suffices hfold : ∀ (h : HTTPHeaders) (rest : List HTTPHeader),
      ((h.headers ++ rest).map HTTPHeader.lowercasedName).Nodup →
        (rest.foldl update h).headers = h.headers ++ rest from hfold empty headers hd
  intro h rest
  induction rest generalizing h with
  | nil =>
    intro _
    exact (List.append_nil _).symm
  | cons header rest ih =>
    intro hd
    have hmem : header.lowercasedName ∉ h.headers.map HTTPHeader.lowercasedName := by
      rw [List.map_append, List.map_cons] at hd
      exact fun hm => List.disjoint_of_nodup_append hd hm List.mem_cons_self
    have hupdate : (h.update header).headers = h.headers ++ [header] := updated_of_not_mem hmem
    rw [List.foldl_cons, ih, hupdate, List.append_assoc, List.singleton_append]
    rw [hupdate, List.append_assoc, List.singleton_append]
    exact hd

/-- The dictionary of the headers says all there is to say. -/
theorem ofDictionary_dictionary (h : HTTPHeaders) : ofDictionary h.dictionary = h := by
  have hheaders : h.dictionary.map (fun p => (⟨p.1, p.2⟩ : HTTPHeader)) = h.headers := by
    unfold dictionary
    rw [List.map_map]
    exact List.map_id _
  refine HTTPHeaders.ext ?_
  rw [ofDictionary, hheaders]
  exact headers_ofHeaders h.distinct

end HTTPHeaders
end Karupasu.Provider
