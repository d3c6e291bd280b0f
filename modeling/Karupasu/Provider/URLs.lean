import Karupasu.Library.PercentEncoding
import Mathlib.Data.List.TakeWhile

/-!
# URLs

The texts of the URLs that are requested are those of web addresses: a host, and a path and a
query in which every other character is escaped. Of Foundation it is only asked that it takes these
as they are.
-/
namespace Karupasu.Provider

open Karupasu.Library.PercentEncoding

/-- A URL as `URLComponents` sees it: what comes before the query, and the query as it is
written. -/
structure URL where
  location : String
  percentEncodedQuery : Option String := none
  deriving DecidableEq

/-- The characters of a query, of which `/`, `?` and the unreserved ones are not delimiters. -/
def urlQueryAllowed (c : Char) : Bool :=
  c.isAlphanum || c ∈ ['-', '.', '_', '~', '!', '$', '&', '\'', '(', ')', '*', '+', ',', ';', '=',
    ':', '@', '/', '?']

def urlPathAllowed (c : Char) : Bool := urlQueryAllowed c && c ≠ '?'

/-- The characters of a name that is registered for a host. -/
def hostAllowed (c : Char) : Bool := c.isAlphanum || c ∈ ['-', '.', '_', '~']

namespace URL

def absoluteString (url : URL) : String :=
  match url.percentEncodedQuery with
  | some query => url.location ++ "?" ++ query
  | none => url.location

/-- There is one slash between the URL and the component. -/
def appendingPathComponent (url : URL) (component : String) : URL :=
  { url with
    location := url.location ++ (if component.toList.head? = some '/' then "" else "/") ++
      escape urlPathAllowed component }

/-- A location has a host, and a path that is empty or begins with a slash. -/
def isWebLocation (location : List Char) : Bool :=
  let rest := location.drop 7
  let path := rest.dropWhile hostAllowed
  location.take 7 == ['h', 't', 't', 'p', ':', '/', '/'] && rest.head?.any hostAllowed &&
    (path.isEmpty || path.head? == some '/') && wellEscaped urlPathAllowed path

/-- The URL of a page, with nothing unescaped in it. -/
def isWeb (url : URL) : Bool :=
  isWebLocation url.location.toList &&
    url.percentEncodedQuery.all fun query => wellEscaped urlQueryAllowed query.toList

/-- A text is a location up to the first `?`, and a query after it. -/
def ofString (s : String) : URL :=
  match s.toList.dropWhile (· ≠ '?') with
  | [] => ⟨s, none⟩
  | _ :: query => ⟨String.ofList (s.toList.takeWhile (· ≠ '?')), some (String.ofList query)⟩

theorem ofString_absoluteString {location : String} (h : '?' ∉ location.toList)
    (query : Option String) :
    ofString (absoluteString ⟨location, query⟩) = ⟨location, query⟩ := by
  have hlocation : ∀ c ∈ location.toList, (decide (c ≠ '?')) = true := by
    intro c hc
    exact decide_eq_true fun he => h (he ▸ hc)
  cases query with
  | none =>
    have hdrop : location.toList.dropWhile (fun c => decide (c ≠ '?')) = [] := by
      rw [List.dropWhile_eq_nil_iff]
      exact hlocation
    unfold ofString absoluteString
    rw [hdrop]
  | some query =>
    have htext : (absoluteString ⟨location, some query⟩).toList =
        location.toList ++ '?' :: query.toList := by
      show (location ++ "?" ++ query).toList = _
      rw [String.toList_append, String.toList_append, List.append_assoc]
      rfl
    have hdrop : (location.toList ++ '?' :: query.toList).dropWhile
        (fun c => decide (c ≠ '?')) = '?' :: query.toList := by
      rw [List.dropWhile_append_of_pos hlocation, List.dropWhile_cons_of_neg (by decide)]
    have htake : (location.toList ++ '?' :: query.toList).takeWhile
        (fun c => decide (c ≠ '?')) = location.toList := by
      rw [List.takeWhile_append_of_pos hlocation, List.takeWhile_cons_of_neg (by decide),
        List.append_nil]
    unfold ofString
    rw [htext, hdrop]
    simp only
    rw [htake, String.ofList_toList, String.ofList_toList]


theorem question_not_mem {url : URL} (h : url.isWeb = true) : '?' ∉ url.location.toList := by
  simp only [isWeb, isWebLocation, Bool.and_eq_true, beq_iff_eq] at h
  obtain ⟨⟨⟨⟨hscheme, -⟩, -⟩, hpath⟩, -⟩ := h
  rw [← List.take_append_drop 7 url.location.toList,
    ← List.takeWhile_append_dropWhile (p := hostAllowed) (l := url.location.toList.drop 7),
    List.mem_append, List.mem_append, hscheme]
  rintro (hs | hh | hp)
  · exact absurd hs (by decide)
  · exact absurd (List.mem_takeWhile_imp hh) (by decide)
  · exact not_mem_of_wellEscaped (by decide) (by decide) (by decide) hpath hp

theorem ofString_of_isWeb {url : URL} (h : url.isWeb = true) : ofString url.absoluteString = url :=
  ofString_absoluteString (question_not_mem h) url.percentEncodedQuery

end URL

/-- What is used of Foundation. -/
structure Foundation where
  /-- `URL(string:)` -/
  url : String → Option URL
  /-- `URLComponents(url:resolvingAgainstBaseURL: false)` -/
  components : URL → Option URL
  /-- `URLComponents.url` -/
  componentsURL : URL → Option URL
  url_absoluteString : ∀ web : URL, web.isWeb = true → url web.absoluteString = some web
  components_eq : ∀ web : URL, web.isWeb = true → components web = some web
  componentsURL_eq : ∀ web : URL, web.isWeb = true → componentsURL web = some web

/-- The Foundation that takes nothing else. -/
def Foundation.strict : Foundation where
  url text := if (URL.ofString text).isWeb then some (URL.ofString text) else none
  components url := if url.isWeb then some url else none
  componentsURL url := if url.isWeb then some url else none
  url_absoluteString web h := by
    rw [URL.ofString_of_isWeb h]
    exact if_pos h
  components_eq _ h := if_pos h
  componentsURL_eq _ h := if_pos h

example : (URL.mk "http://mc.miraito.tech/v1/events" "word=%E3%81%82").isWeb = true := by
  decide +kernel

example : (URL.mk "http://mc.miraito.tech/v1/events" "word=a b").isWeb = false := by
  decide +kernel

end Karupasu.Provider
