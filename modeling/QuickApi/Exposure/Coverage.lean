/-
  QuickApi.Exposure.Coverage

  Which spellings of a disabled route the guard answers.  The guard compares
  `str.lower` of the path, the route matches without regard to case and before
  a newline at the end; the two part at three letters and at that newline.
-/

import QuickApi.Exposure.Routes
import QuickApi.Lib.Readable

namespace QuickApi.Exposure

open QuickApi.Lib

-- ============================================================================
-- Paths and prefixes
-- ============================================================================

theorem below_iff {path family : List Char} :
    OperationalExposure.below path family = true ↔
      path = family ∨ ∃ rest, path = family ++ '/' :: rest := by
  simp only [OperationalExposure.below, Bool.or_eq_true, decide_eq_true_eq,
    List.isPrefixOf_iff_prefix]
  refine or_congr_right ⟨?_, ?_⟩
  · rintro ⟨rest, rfl⟩
    exact ⟨rest, by simp⟩
  · rintro ⟨rest, rfl⟩
    exact ⟨rest, by simp⟩

/-- The middleware and the routes strip the same root. -/
theorem stripRoot_eq_getRoutePath (scope : Scope) :
    OperationalExposure.stripRoot scope.path scope.rootPath = getRoutePath scope := by
  unfold OperationalExposure.stripRoot getRoutePath
  by_cases hroot : scope.rootPath = []
  · simp [hroot]
  · rw [if_neg hroot]
    by_cases hstarts : scope.rootPath.isPrefixOf scope.path = true
    · obtain ⟨rest, hrest⟩ := List.isPrefixOf_iff_prefix.mp hstarts
      have hget : scope.path[scope.rootPath.length]? = rest.head? := by
        rw [← hrest, List.getElem?_append_right (Nat.le_refl _), Nat.sub_self,
          List.head?_eq_getElem?]
      have hbelow : OperationalExposure.below scope.path scope.rootPath = true ↔
          rest = [] ∨ rest.head? = some '/' := by
        rw [below_iff, ← hrest]
        cases rest with
        | nil => simp
        | cons c rest => simp
      have hdrop : scope.path.drop scope.rootPath.length = rest := by
        rw [← hrest, List.drop_left]
      have hself : scope.path = scope.rootPath ↔ rest = [] := by
        rw [← hrest]
        simp
      simp only [hstarts, Bool.not_true, Bool.false_eq_true, if_false, hget, hdrop, hself]
      by_cases hnil : rest = []
      · simp [hroot, hbelow, hnil]
      · simp [hroot, hbelow, hnil]
    · have hbelow : OperationalExposure.below scope.path scope.rootPath ≠ true := by
        rw [Ne, below_iff]
        rintro (h | ⟨rest, h⟩)
        · exact hstarts (List.isPrefixOf_iff_prefix.mpr (h ▸ List.prefix_rfl))
        · exact hstarts (List.isPrefixOf_iff_prefix.mpr ⟨'/' :: rest, h.symm⟩)
      simp [hstarts, hbelow]

-- ============================================================================
-- Families
-- ============================================================================

/-- Every family is a slash and a word of lower-case letters and dots. -/
structure IsFamily (family : List Char) : Prop where
  slash : ∃ word, family = '/' :: word ∧ word ≠ [] ∧ '/' ∉ word ∧ ∀ c ∈ word,
    c ∈ ".abcdefghijklmnopqrstuvwxyz".toList

theorem isFamily_of_disabled {mw : OperationalExposure} {family : List Char}
    (h : family ∈ mw.disabled) : IsFamily family := by
  have hall : ∀ family ∈ docsFamilies ++ diagnosticsFamilies ++ metricsFamilies,
      family.head? = some '/' ∧ family.tail ≠ [] ∧ '/' ∉ family.tail ∧
        family.tail ⊆ ".abcdefghijklmnopqrstuvwxyz".toList := by decide +kernel
  have hmem : family ∈ docsFamilies ++ diagnosticsFamilies ++ metricsFamilies := by
    have hif : ∀ (enabled : Bool) (families : List (List Char)),
        family ∈ (if enabled then [] else families) → family ∈ families := by
      intro enabled families h
      cases enabled with
      | true => cases h
      | false => exact h
    unfold OperationalExposure.disabled at h
    simp only [List.mem_append] at h ⊢
    exact h.imp (fun h => h.imp (hif _ _) (hif _ _)) (hif _ _)
  obtain ⟨hhead, hne, hslash, hchars⟩ := hall family hmem
  cases family with
  | nil => cases hhead
  | cons c word =>
      obtain rfl : c = '/' := Option.some.inj hhead
      exact ⟨word, rfl, hne, hslash, hchars⟩

-- ============================================================================
-- What a route below a family accepts
-- ============================================================================

/-- The text matches the letters of a family without regard to case. -/
abbrev Spells (family text : List Char) : Prop :=
  List.Forall₂ (fun a c => equalIgnoreCase a c = true) family text

theorem compilePath_append (convertors : List Char → Option Convertor) {family : List Char}
    (h : '{' ∉ family) (rest : List Char) :
    compilePath convertors 0 (family ++ rest) =
      (compilePath convertors 0 rest).map (family.map .literal ++ ·) := by
  induction family with
  | nil => simp
  | cons c family ih =>
      rw [List.mem_cons, not_or] at h
      rw [List.cons_append, compilePath, if_neg (Ne.symm h.1), ih h.2, Option.map_map]
      rfl

theorem matchItems_literals {finish : List Char → Bool} {family : List Char} {items : List Item}
    {path : List Char} (h : matchItems finish (family.map .literal ++ items) path = true) :
    ∃ text rest, path = text ++ rest ∧ Spells family text ∧
      matchItems finish items rest = true := by
  induction family generalizing path with
  | nil => exact ⟨[], path, rfl, .nil, h⟩
  | cons a family ih =>
      cases path with
      | nil => cases h
      | cons c path =>
          rw [List.map_cons, List.cons_append, matchItems, Bool.and_eq_true] at h
          obtain ⟨text, rest, rfl, hspells, hrest⟩ := ih h.2
          exact ⟨c :: text, rest, rfl, .cons h.1 hspells, hrest⟩

/-- A path that a route below a family accepts spells the family, and ends there, before a
    newline or before a slash. -/
theorem accepts_cases {convertors : List Char → Option Convertor} {route : Route}
    (hitems : compilePath convertors 0 route.path = some route.items) {family : List Char}
    (hbrace : '{' ∉ family) (hbelow : OperationalExposure.below route.path family = true)
    {path : List Char} (haccepts : route.accepts path = true) :
    ∃ text rest, path = text ++ rest ∧ Spells family text ∧
      (rest = [] ∨ rest = ['\n'] ∨ ∃ tail, rest = '/' :: tail) := by
  obtain heq | ⟨template, heq⟩ := below_iff.mp hbelow
  · have hcompiled := compilePath_append convertors hbrace []
    rw [List.append_nil, ← heq, hitems] at hcompiled
    obtain hitems' : route.items = family.map .literal ++ [] := by
      simpa [compilePath, heq] using hcompiled
    rw [Route.accepts, hitems'] at haccepts
    obtain ⟨text, rest, hpath, hspells, hrest⟩ := matchItems_literals haccepts
    refine ⟨text, rest, hpath, hspells, ?_⟩
    simp only [matchItems, atEnd, Bool.or_eq_true, Bool.and_eq_true, beq_iff_eq] at hrest
    obtain (h | h) | ⟨⟨-, h⟩, -⟩ := hrest
    · exact .inl h
    · exact .inr (.inl h)
    · cases rest with
      | nil => cases h
      | cons c tail => exact .inr (.inr ⟨tail, by rw [Option.some.inj h]⟩)
  · have hcompiled := compilePath_append convertors hbrace ('/' :: template)
    rw [← heq, hitems, compilePath, if_neg (by decide), Option.map_map] at hcompiled
    obtain ⟨items, -, hitems'⟩ := Option.map_eq_some_iff.mp hcompiled.symm
    rw [Route.accepts, ← hitems'] at haccepts
    obtain ⟨text, rest, hpath, hspells, hrest⟩ := matchItems_literals haccepts
    refine ⟨text, rest, hpath, hspells, .inr (.inr ?_)⟩
    cases rest with
    | nil => cases hrest
    | cons c tail =>
        rw [matchItems, Bool.and_eq_true] at hrest
        exact ⟨tail, by rw [eq_slash_of_equalIgnoreCase hrest.1]⟩

-- ============================================================================
-- What the guard makes of it
-- ============================================================================

section
variable (finalSigma : List Char → List Char → Bool)

/-- Without strays the lower case of a spelling is the family itself. -/
theorem lowerBehind_of_plain {family text : List Char} (hspells : Spells family text)
    (hfamily : ∀ a ∈ family, a ∈ "/.abcdefghijklmnopqrstuvwxyz".toList)
    (hplain : ∀ c ∈ text, c ∉ caseStrays) (before rest : List Char) :
    lowerBehind finalSigma before (text ++ rest) =
      family ++ lowerBehind finalSigma (before ++ text) rest := by
  induction hspells generalizing before with
  | nil => simp
  | @cons a c family text hac _ ih =>
      have hchar := (lowerChar_of_equalIgnoreCase (hfamily a List.mem_cons_self) hac
        (finalSigma before (text ++ rest))).resolve_left (hplain c List.mem_cons_self)
      rw [List.cons_append, lowerBehind, hchar,
        ih (fun a ha => hfamily a (List.mem_cons_of_mem _ ha))
          (fun c hc => hplain c (List.mem_cons_of_mem _ hc))]
      simp

/-- The lower case of a spelling has a slash only where the family has one, and a character
    outside ASCII where the spelling has a stray. -/
theorem lowerBehind_of_spells {family text : List Char} (hspells : Spells family text)
    (hfamily : ∀ a ∈ family, a ∈ "/.abcdefghijklmnopqrstuvwxyz".toList) (hslash : '/' ∉ family)
    (before rest : List Char) :
    ∃ low, lowerBehind finalSigma before (text ++ rest) =
        low ++ lowerBehind finalSigma (before ++ text) rest ∧ '/' ∉ low ∧
      ((∃ c ∈ text, c ∈ caseStrays) → ∃ d ∈ low, 128 ≤ d.toNat) := by
  induction hspells generalizing before with
  | nil => exact ⟨[], by simp, by simp, by simp⟩
  | @cons a c family text hac _ ih =>
      rw [List.mem_cons, not_or] at hslash
      obtain ⟨low, hlow, hnot, hstray⟩ := ih
        (fun a ha => hfamily a (List.mem_cons_of_mem _ ha)) hslash.2 (before ++ [c])
      have hchar := lowerChar_of_equalIgnoreCase (hfamily a List.mem_cons_self) hac
        (finalSigma before (text ++ rest))
      refine ⟨lowerChar (finalSigma before (text ++ rest)) c ++ low, ?_, ?_, ?_⟩
      · rw [List.cons_append, lowerBehind, hlow]
        simp
      · rw [List.mem_append, not_or]
        refine ⟨?_, hnot⟩
        obtain hc | hc := hchar
        · exact slash_not_mem_lowerChar hc _
        · rw [hc, List.mem_singleton]
          exact hslash.1
      · rintro ⟨d, hd, hdstray⟩
        obtain rfl | hd := List.mem_cons.mp hd
        · obtain ⟨e, he, hlarge⟩ := exists_nonAscii_of_stray hdstray
            (finalSigma before (text ++ rest))
          exact ⟨e, List.mem_append_left _ he, hlarge⟩
        · obtain ⟨e, he, hlarge⟩ := hstray ⟨d, hd, hdstray⟩
          exact ⟨e, List.mem_append_right _ he, hlarge⟩

end

/-- The path has no stray among the characters of the family, and no newline behind them. -/
def PlainSpelling (family path : List Char) : Prop :=
  (∀ c ∈ path.take family.length, c ∉ caseStrays) ∧ path[family.length]? ≠ some '\n'

/-- Whatever family answers a spelling, it is a plain one: up to the next slash the lower case
    of the path is that family, which has neither strays nor a newline. -/
theorem plain_of_answered {finalSigma : List Char → List Char → Bool}
    {word word' text rest : List Char} (hspells : Spells ('/' :: word) text)
    (hletters : ∀ a ∈ word, a ∈ "/.abcdefghijklmnopqrstuvwxyz".toList) (hslash : '/' ∉ word)
    (hrest : rest = [] ∨ rest = ['\n'] ∨ ∃ tail, rest = '/' :: tail) (hslash' : '/' ∉ word')
    (hword' : ∀ c ∈ word', c ∈ ".abcdefghijklmnopqrstuvwxyz".toList)
    (hanswered : OperationalExposure.below (lowerBehind finalSigma [] (text ++ rest))
      ('/' :: word') = true) :
    (∀ c ∈ text, c ∉ caseStrays) ∧ rest ≠ ['\n'] := by
  have hlowSlash : ∀ isFinal, lowerChar isFinal '/' = ['/'] := by decide +kernel
  have hlowNewline : ∀ isFinal, lowerChar isFinal '\n' = ['\n'] := by decide +kernel
  have hascii : ∀ c ∈ ".abcdefghijklmnopqrstuvwxyz".toList, c.toNat < 128 ∧ c ≠ '\n' :=
    List.all_iff_forall_prop.mp (by decide +kernel)
  cases hspells with
  | @cons _ c _ text hc hspells =>
      obtain rfl := eq_slash_of_equalIgnoreCase hc
      obtain ⟨low, hlow, hnot, hstray⟩ :=
        lowerBehind_of_spells finalSigma hspells hletters hslash ([] ++ ['/']) rest
      rw [List.cons_append, lowerBehind, hlowSlash, hlow, below_iff] at hanswered
      -- what stands behind the family starts with a slash, if anything does
      have hread : ∃ tail, StartsIn (fun c => ¬ c ≠ '/') tail ∧
          low ++ lowerBehind finalSigma ([] ++ ['/'] ++ text) rest = word' ++ tail := by
        obtain h | ⟨tail, h⟩ := hanswered
        · exact ⟨[], startsIn_nil _, by simpa using h⟩
        · exact ⟨'/' :: tail, startsIn_cons (by simp), by simpa using h⟩
      obtain ⟨tail, htail, hread⟩ := hread
      have hlowWord : ∀ c ∈ low, c ≠ '/' := fun c hc hcs => hnot (hcs ▸ hc)
      have hword'' : ∀ c ∈ word', c ≠ '/' := fun c hc hcs => hslash' (hcs ▸ hc)
      have hnewline : rest ≠ ['\n'] := by
        rintro rfl
        rw [lowerBehind, hlowNewline, lowerBehind, List.append_nil,
          ← List.append_nil (low ++ ['\n'])] at hread
        have hchars : ∀ c ∈ low ++ ['\n'], c ≠ '/' := by
          intro c hc
          obtain hc | hc := List.mem_append.mp hc
          · exact hlowWord c hc
          · rw [List.mem_singleton.mp hc]
            decide
        obtain ⟨heq, -⟩ := append_inj_of_alphabet hchars hword'' (startsIn_nil _) htail hread
        exact (hascii '\n' (hword' _ (by rw [← heq]; simp))).2 rfl
      have hlowRest : StartsIn (fun c => ¬ c ≠ '/')
          (lowerBehind finalSigma ([] ++ ['/'] ++ text) rest) := by
        obtain rfl | rfl | ⟨rest, rfl⟩ := hrest
        · exact startsIn_nil _
        · exact absurd rfl hnewline
        · rw [lowerBehind, hlowSlash]
          exact startsIn_cons (by simp)
      obtain ⟨heq, -⟩ := append_inj_of_alphabet hlowWord hword'' hlowRest htail hread
      refine ⟨fun c hc hcs => ?_, hnewline⟩
      obtain rfl | hc := List.mem_cons.mp hc
      · exact absurd hcs (by decide)
      · obtain ⟨d, hd, hlarge⟩ := hstray ⟨c, hc, hcs⟩
        have hsmall := (hascii d (hword' d (heq ▸ hd))).1
        omega

/-- A disabled route is answered by the guard if and only if its spelling is plain. -/
theorem disabled_route_answered_iff {finalSigma : List Char → List Char → Bool}
    {convertors : List Char → Option Convertor} {mw : OperationalExposure} {family : List Char}
    (hfamily : family ∈ mw.disabled) {template : List Char} {route : Route}
    (hroute : flexibleRoute convertors template = some route ∨
      frameworkRoute convertors template = some route)
    (hbelow : OperationalExposure.below template family = true) {scope : Scope}
    (hhttp : scope.type = .http) (haccepts : route.accepts (getRoutePath scope) = true) :
    mw.call finalSigma scope = .response 404 "Not Found".toList ↔
      PlainSpelling family (getRoutePath scope) := by
  obtain ⟨word, rfl, -, hslash, hword⟩ := isFamily_of_disabled hfamily
  have hitems : compilePath convertors 0 route.path = some route.items ∧ route.path = template := by
    obtain h | h := hroute <;> obtain ⟨items, hcompiled, rfl⟩ := Option.map_eq_some_iff.mp h <;>
      exact ⟨hcompiled, rfl⟩
  have hletters : ∀ a ∈ '/' :: word, a ∈ "/.abcdefghijklmnopqrstuvwxyz".toList := by
    intro a ha
    obtain rfl | ha := List.mem_cons.mp ha
    · decide
    · have hsub : ".abcdefghijklmnopqrstuvwxyz".toList ⊆ "/.abcdefghijklmnopqrstuvwxyz".toList := by
        decide +kernel
      exact hsub (hword a ha)
  have hbrace : '{' ∉ '/' :: word := fun h => absurd (hletters _ h) (by decide)
  obtain ⟨text, rest, hpath, hspells, hrest⟩ :=
    accepts_cases hitems.1 hbrace (hitems.2 ▸ hbelow) haccepts
  have hlength := hspells.length_eq
  have hplain : PlainSpelling ('/' :: word) (getRoutePath scope) ↔
      (∀ c ∈ text, c ∉ caseStrays) ∧ rest ≠ ['\n'] := by
    unfold PlainSpelling
    rw [hpath, hlength, List.take_left, List.getElem?_append_right (Nat.le_refl _), Nat.sub_self,
      ← List.head?_eq_getElem?]
    refine and_congr_right fun _ => not_congr ?_
    obtain rfl | rfl | ⟨tail, rfl⟩ := hrest
    · simp
    · simp
    · simp
  have hcall : mw.call finalSigma scope = .response 404 "Not Found".toList ↔
      ∃ family ∈ mw.disabled,
        OperationalExposure.below (lower finalSigma (getRoutePath scope)) family = true := by
    simp only [OperationalExposure.call, hhttp, stripRoot_eq_getRoutePath, if_true]
    split
    · next hany => simpa using hany
    · next hany => simpa using hany
  rw [hcall, hplain, lower, hpath]
  constructor
  · rintro ⟨family, hdisabled, hanswered⟩
    obtain ⟨word', rfl, -, hslash', hword'⟩ := isFamily_of_disabled hdisabled
    exact plain_of_answered hspells (fun a ha => hletters a (List.mem_cons_of_mem _ ha)) hslash
      hrest hslash' hword' hanswered
  · rintro ⟨hstrays, hnewline⟩
    refine ⟨_, hfamily, below_iff.mpr ?_⟩
    rw [lowerBehind_of_plain finalSigma hspells hletters hstrays]
    obtain rfl | rfl | ⟨tail, rfl⟩ := hrest
    · exact .inl (by simp [lowerBehind])
    · exact absurd rfl hnewline
    · have hlow : ∀ isFinal, lowerChar isFinal '/' = ['/'] := by decide +kernel
      exact .inr ⟨_, by rw [lowerBehind, hlow]; rfl⟩

/-- `/v1/DOCS/x` under the root `/v1` is answered for the template `/docs/{page}`. -/
theorem disabled_route_answered_iff_docs :
    ∃ route, flexibleRoute (fun _ => some fun text => !text.isEmpty && !text.contains '/')
        "/docs/{page}".toList = some route ∧
      (OperationalExposure.mk false true true).call (fun _ _ => false)
        ⟨.http, "/v1/DOCS/x".toList, "/v1".toList⟩ = .response 404 "Not Found".toList := by
  obtain ⟨route, hroute, haccepts⟩ : ∃ route,
      flexibleRoute (fun _ => some fun text => !text.isEmpty && !text.contains '/')
        "/docs/{page}".toList = some route ∧
      route.accepts (getRoutePath ⟨.http, "/v1/DOCS/x".toList, "/v1".toList⟩) = true :=
    ⟨_, rfl, by decide +kernel⟩
  have hdisabled : "/docs".toList ∈ (OperationalExposure.mk false true true).disabled := by
    decide +kernel
  have hplain : PlainSpelling "/docs".toList
      (getRoutePath ⟨.http, "/v1/DOCS/x".toList, "/v1".toList⟩) := by
    exact ⟨List.all_iff_forall_prop.mp (by decide +kernel), by decide +kernel⟩
  exact ⟨route, hroute, (disabled_route_answered_iff hdisabled (.inl hroute) (by decide +kernel)
    rfl haccepts).mpr hplain⟩

/-- With the documentation switched off, its route accepts `/docſ` and `/docs` before a newline,
    and the guard lets both through. -/
theorem disabled_route_not_answered :
    "/docs".toList ∈ (OperationalExposure.mk false true true).disabled ∧
    ∃ route, flexibleRoute (fun _ => none) "/docs".toList = some route ∧
      ∀ path ∈ ["/docſ".toList, "/docs\n".toList],
        route.accepts (getRoutePath ⟨.http, path, []⟩) = true ∧
        (OperationalExposure.mk false true true).call (fun _ _ => false) ⟨.http, path, []⟩ =
          .downstream :=
  ⟨by decide +kernel, _, rfl, by decide +kernel⟩

end QuickApi.Exposure
