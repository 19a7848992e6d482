/-
This file settles where a browser goes from a page of the site when it is sent to a target that
`safe_redirect` has let through. The filter refuses a second slash. A browser takes a backslash
for a slash, so a target with a backslash in second place leads to the host that it names.
-/

import Bagel.Urls
import Bagel.Library.WebUrl

namespace Bagel

namespace RedirectTarget

/-- What is let through is a slash, then no slash, and printable. -/
theorem cases {raw target : List Char} (accepted : safeRedirect raw = some target) :
    ∃ rest, target = '/' :: rest ∧ rest.head? ≠ some '/' ∧
      ∀ character ∈ rest, 32 ≤ character.toNat := by
  unfold safeRedirect at accepted
  split at accepted
  · next condition =>
    cases accepted
    obtain ⟨⟨rest, whole⟩, double, printable⟩ := condition
    refine ⟨rest, whole.symm, fun second => double ?_, fun character member => ?_⟩
    · obtain ⟨later, rfl⟩ : ∃ later, rest = '/' :: later := List.head?_eq_some_iff.mp second
      exact ⟨later, whole⟩
    · rw [← whole] at printable
      have codes := List.all_eq_true.mp printable character (List.mem_cons_of_mem _ member)
      exact of_decide_eq_true (Bool.and_eq_true_iff.mp codes).1
  · cases accepted

/-- A browser on a page of the site goes to a target on the site. -/
def Stays (browser : WebUrl.Parser) (target : List Char) : Prop :=
  ∀ base : WebUrl.Url, base.scheme = "https".toList →
    ∃ url, browser.resolve base target = some url ∧ WebUrl.SameOrigin url base

/-- A target that is let through stays on the site exactly when its second character is no
backslash. -/
theorem stays_iff (browser : WebUrl.Parser) {raw target : List Char}
    (accepted : safeRedirect raw = some target) :
    Stays browser target ↔ target[1]? ≠ some '\\' := by
  obtain ⟨rest, rfl, single, printable⟩ := cases accepted
  have second : ('/' :: rest)[1]? = rest.head? := by rw [List.head?_eq_getElem?]; rfl
  rw [second]
  refine (WebUrl.Parser.remains_iff _ (WebUrl.clean_of_slash printable)).trans ?_
  constructor
  · intro plain backslash
    obtain ⟨later, rfl⟩ := List.head?_eq_some_iff.mp backslash
    have kept : WebUrl.isOuter '\\' = false := by decide
    have slash := plain '\\' (by rw [WebUrl.rdropWhile_cons kept]; rfl)
    exact absurd slash (by decide)
  · intro other first head
    have first' := WebUrl.head?_rdropWhile head
    rw [first'] at single other
    refine Bool.eq_false_iff.mpr fun slash => ?_
    rcases Bool.or_eq_true_iff.mp slash with same | same
    · exact single (congrArg some (of_decide_eq_true same))
    · exact other (congrArg some (of_decide_eq_true same))

end RedirectTarget

namespace SampleRedirects

/-- The hosts of the samples are domains in lower case, which a browser takes as they are. -/
def browser : WebUrl.Parser := ⟨fun text => some (.domain text), fun _ _ _ => none⟩

theorem stays_on_path : RedirectTarget.Stays browser "/account?next=%2f".toList ↔
    ("/account?next=%2f".toList)[1]? ≠ some '\\' :=
  @RedirectTarget.stays_iff browser "/account?next=%2f".toList _ (by decide)

def page : WebUrl.Url :=
  ⟨"https".toList, [], [], .domain "one.example".toList, none, [[]], none, none⟩

/-- A browser goes from a page of one host to another host. -/
theorem resolve_backslash :
    (browser.resolve page "/\\two.example".toList).map WebUrl.Url.host =
      some (.domain "two.example".toList) := by
  decide +kernel

theorem not_stays : ¬∀ raw target, safeRedirect raw = some target →
    RedirectTarget.Stays browser target := by
  intro every
  obtain ⟨url, resolved, same⟩ := every "/\\two.example".toList "/\\two.example".toList (by decide)
    page rfl
  have host := resolve_backslash
  rw [resolved, Option.map_some, same.host] at host
  exact absurd host (by decide)

end SampleRedirects

end Bagel
