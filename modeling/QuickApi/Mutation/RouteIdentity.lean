/-
  QuickApi.Mutation.RouteIdentity

  `resolve_route` (`app/common/models/idempotency_model.py`): the method and the
  template of the matched route in one text, with its parameters in the style of
  Express.  In this style a parameter reads as the literal text that spells it, so
  routes are kept apart where literal text and names keep apart, and a template
  where they do not shares its identity with another one.
-/

import QuickApi.Lib.Readable
import QuickApi.Mutation.Record
import QuickApi.Registration.Dependant
import Mathlib.Data.List.DropRight

namespace QuickApi.Mutation

open QuickApi.Fingerprint QuickApi.Registration QuickApi.Lib

-- ============================================================================
-- Templates
-- ============================================================================

/-- A piece of a template as `{([^}]+)}` divides it. -/
inductive Segment where
  | char (c : Char)
  | parameter (name : Text)
deriving DecidableEq, Repr

/-- The pieces, behind an opening brace and a `name` if there is one. -/
def segmentsFrom : Option Text → Text → List Segment
  | none, [] => []
  | some name, [] => ('{' :: name).map .char
  | none, c :: rest =>
      if c = '{' then segmentsFrom (some []) rest else .char c :: segmentsFrom none rest
  | some name, c :: rest =>
      if c = '}' then
        if name = [] then .char '{' :: .char '}' :: segmentsFrom none rest
        else .parameter name :: segmentsFrom none rest
      else segmentsFrom (some (name ++ [c])) rest

def segments (template : Text) : List Segment := segmentsFrom none template

namespace Segment

def text : Segment → Text
  | char c => [c]
  | parameter name => '{' :: name ++ ['}']

/-- What the replacement `:\1` makes of a piece. -/
def express : Segment → Text
  | char c => [c]
  | parameter name => ':' :: name

def name? : Segment → Option Text
  | char _ => none
  | parameter name => some name

end Segment

/-- `re.sub(r'{([^}]+)}', r':\1', template)` -/
def toExpress (template : Text) : Text := (segments template).flatMap Segment.express

/-- `template.rstrip('/') or '/'` -/
def withoutSlashes (template : Text) : Text :=
  let stripped := template.rdropWhile (· == '/')
  if stripped = [] then ['/'] else stripped

/-- `resolve_route`, of the method, the `path_format` of the matched route, if it has one, and
    the route that the policy gives. -/
def resolveRoute (method : Text) (pathFormat : Option Text) (policyRoute : Option Text) :
    Except Exc Text :=
  match policyRoute with
  | some route => .ok route
  | none =>
      match pathFormat with
      | none => .error (.runtimeError "Automatic idempotency requires a matched route template.")
      | some template => .ok (method ++ ' ' :: toExpress (withoutSlashes template))

-- ============================================================================
-- Pieces and texts
-- ============================================================================

/-- The names are those that registration looks up among the declared parameters. -/
theorem filterMap_segmentsFrom (state : Option Text) (template : Text) :
    (segmentsFrom state template).filterMap Segment.name? = placeholdersFrom state template := by
  induction template generalizing state with
  | nil =>
      cases state with
      | none => rfl
      | some name => simp [segmentsFrom, placeholdersFrom, Segment.name?]
  | cons c rest ih =>
      cases state with
      | none =>
          rw [segmentsFrom, placeholdersFrom]
          split
          · exact ih _
          · exact ih none
      | some name =>
          rw [segmentsFrom, placeholdersFrom]
          split
          · split
            · exact ih none
            · exact congrArg (name :: ·) (ih none)
          · exact ih _

theorem filterMap_segments (template : Text) :
    (segments template).filterMap Segment.name? = placeholders template :=
  filterMap_segmentsFrom none template

/-- The pieces make up the template. -/
theorem flatMap_text_segmentsFrom (state : Option Text) (template : Text) :
    (segmentsFrom state template).flatMap Segment.text =
      (state.elim [] ('{' :: ·)) ++ template := by
  have hchars (text : Text) : (text.map Segment.char).flatMap Segment.text = text := by
    induction text with
    | nil => rfl
    | cons c text ih => simpa [Segment.text] using ih
  induction template generalizing state with
  | nil =>
      cases state with
      | none => rfl
      | some name => simp only [segmentsFrom, hchars, Option.elim_some, List.append_nil]
  | cons c rest ih =>
      cases state with
      | none =>
          rw [segmentsFrom]
          split
          · next hc => simp [ih, hc]
          · simp [ih, Segment.text]
      | some name =>
          rw [segmentsFrom]
          split
          · next hc =>
              split
              · next hname => simp [ih, Segment.text, hc, hname]
              · simp [ih, Segment.text, hc]
          · simp [ih]

theorem flatMap_text_segments (template : Text) :
    (segments template).flatMap Segment.text = template :=
  flatMap_text_segmentsFrom none template

theorem segmentsFrom_unclosed {template : Text} (h : '}' ∉ template) (name : Text) :
    segmentsFrom (some name) template = ('{' :: name ++ template).map .char := by
  induction template generalizing name with
  | nil => rw [segmentsFrom, List.append_nil]
  | cons c rest ih =>
      obtain ⟨hc, hrest⟩ := not_or.mp (List.mem_cons.not.mp h)
      rw [segmentsFrom, if_neg (Ne.symm hc), ih hrest]
      simp

theorem segmentsFrom_closed {name : Text} (h : '}' ∉ name) (start rest : Text) :
    segmentsFrom (some start) (name ++ '}' :: rest) =
      if start ++ name = [] then .char '{' :: .char '}' :: segmentsFrom none rest
      else .parameter (start ++ name) :: segmentsFrom none rest := by
  induction name generalizing start with
  | nil => rw [List.nil_append, segmentsFrom, if_pos rfl, List.append_nil]
  | cons c name ih =>
      obtain ⟨hc, hname⟩ := not_or.mp (List.mem_cons.not.mp h)
      rw [List.cons_append, segmentsFrom, if_neg (Ne.symm hc), ih hname, List.append_assoc]
      rfl

/-- A character that is no brace ends up as a piece of its own. -/
theorem segmentsFrom_concat {c : Char} (hopen : c ≠ '{') (hclose : c ≠ '}') (state : Option Text)
    (template : Text) :
    segmentsFrom state (template ++ [c]) = segmentsFrom state template ++ [.char c] := by
  induction template generalizing state with
  | nil =>
      cases state with
      | none => simp [segmentsFrom, hopen]
      | some name => simp [segmentsFrom, hclose]
  | cons a rest ih =>
      cases state with
      | none =>
          rw [List.cons_append, segmentsFrom, segmentsFrom]
          split
          · exact ih _
          · rw [ih]
            rfl
      | some name =>
          rw [List.cons_append, segmentsFrom, segmentsFrom]
          split
          · split
            · rw [ih]
              rfl
            · rw [ih]
              rfl
          · exact ih _

theorem placeholders_withoutSlashes (template : Text) :
    placeholders (withoutSlashes template) = placeholders template := by
  have hdrop : placeholders (template.rdropWhile (· == '/')) = placeholders template := by
    induction template using List.reverseRecOn with
    | nil => rfl
    | append_singleton rest c ih =>
        by_cases hc : c = '/'
        · rw [List.rdropWhile_concat_pos _ _ _ (by simpa using hc), ih, ← filterMap_segments (rest ++ _),
            segments, segmentsFrom_concat (by simp [hc]) (by simp [hc]), List.filterMap_append,
            filterMap_segmentsFrom]
          simp [placeholders, Segment.name?]
        · rw [List.rdropWhile_concat_neg _ _ _ (by simpa using hc)]
  rw [withoutSlashes]
  split
  · next hnil => rw [← hdrop, hnil]; rfl
  · exact hdrop

-- ============================================================================
-- Templates of routes
-- ============================================================================

/-- `[a-zA-Z_]` -/
def isNameStart (c : Char) : Bool := c.isAlpha || c == '_'

/-- `[a-zA-Z0-9_]` -/
def isNameChar (c : Char) : Bool := c.isAlphanum || c == '_'

/-- `[a-zA-Z_][a-zA-Z0-9_]*`, the name of a parameter -/
def isParameterName : Text → Bool
  | [] => false
  | c :: rest => isNameStart c && rest.all isNameChar

theorem isNameChar_of_isNameStart {c : Char} (h : isNameStart c = true) : isNameChar c = true := by
  rw [isNameStart, Bool.or_eq_true] at h
  rw [isNameChar, Char.isAlphanum, Bool.or_eq_true, Bool.or_eq_true]
  exact h.imp_left .inl

theorem isNameChar_of_mem {name : Text} (h : isParameterName name = true) {c : Char}
    (hc : c ∈ name) : isNameChar c = true := by
  cases name with
  | nil => cases hc
  | cons start rest =>
      rw [isParameterName, Bool.and_eq_true, List.all_eq_true] at h
      obtain rfl | hrest := List.mem_cons.mp hc
      · exact isNameChar_of_isNameStart h.1
      · exact h.2 c hrest

theorem ne_nil_of_isParameterName {name : Text} (h : isParameterName name = true) : name ≠ [] := by
  rintro rfl
  cases h

theorem brace_notMem {name : Text} (h : isParameterName name = true) : '{' ∉ name ∧ '}' ∉ name :=
  ⟨fun hmem => absurd (isNameChar_of_mem h hmem) (by decide),
    fun hmem => absurd (isNameChar_of_mem h hmem) (by decide)⟩

/-- An opening brace in front of these pieces opens no parameter. -/
def NotClosed (rest : List Segment) : Prop :=
  (∃ after, rest = .char '}' :: after) ∨ ∃ text : Text, rest = text.map .char ∧ '}' ∉ text

/-- The pieces of a template with well-formed names. -/
def Proper : List Segment → Prop
  | [] => True
  | .char c :: rest => (c = '{' → NotClosed rest) ∧ Proper rest
  | .parameter name :: rest => isParameterName name = true ∧ Proper rest

theorem proper_chars {text : Text} (h : '}' ∉ text) : Proper (text.map .char) := by
  induction text with
  | nil => trivial
  | cons c rest ih =>
      have hrest := (not_or.mp (List.mem_cons.not.mp h)).2
      exact ⟨fun _ => .inr ⟨rest, rfl, hrest⟩, ih hrest⟩

theorem proper_segmentsFrom (state : Option Text) (template : Text)
    (hclose : ∀ name ∈ state, '}' ∉ name)
    (h : ∀ name ∈ (segmentsFrom state template).filterMap Segment.name?,
      isParameterName name = true) : Proper (segmentsFrom state template) := by
  induction template generalizing state with
  | nil =>
      cases state with
      | none => trivial
      | some name =>
          refine proper_chars ?_
          simpa using hclose name rfl
  | cons c rest ih =>
      cases state with
      | none =>
          rw [segmentsFrom] at h ⊢
          split
          · next hc =>
              rw [if_pos hc] at h
              exact ih _ (by simp) h
          · next hc =>
              rw [if_neg hc] at h
              exact ⟨fun hopen => absurd hopen hc, ih none (by simp) h⟩
      | some name =>
          rw [segmentsFrom] at h ⊢
          split
          · next hc =>
              rw [if_pos hc] at h
              split
              · next hname =>
                  rw [if_pos hname] at h
                  exact ⟨fun _ => .inl ⟨_, rfl⟩, by simp, ih none (by simp) h⟩
              · next hname =>
                  rw [if_neg hname] at h
                  obtain ⟨hname, hrest⟩ := List.forall_mem_cons.mp h
                  exact ⟨hname, ih none (by simp) hrest⟩
          · next hc =>
              rw [if_neg hc] at h
              refine ih _ ?_ h
              rintro _ ⟨⟩
              simpa using ⟨hclose name rfl, Ne.symm hc⟩

theorem proper_segments {template : Text}
    (h : ∀ name ∈ placeholders template, isParameterName name = true) :
    Proper (segments template) :=
  proper_segmentsFrom none template (by simp) (by rwa [filterMap_segmentsFrom])

/-- Such pieces are found again in the text that they make up. -/
theorem segments_flatMap_text {pieces : List Segment} (h : Proper pieces) :
    segments (pieces.flatMap Segment.text) = pieces := by
  induction pieces with
  | nil => rfl
  | cons piece rest ih =>
      rw [List.flatMap_cons, segments]
      cases piece with
      | char c =>
          obtain ⟨hopen, hrest⟩ := h
          by_cases hc : c = '{'
          · subst hc
            have hhead : segmentsFrom none (Segment.text (.char '{') ++ rest.flatMap Segment.text) =
                segmentsFrom (some []) (rest.flatMap Segment.text) := by simp [Segment.text, segmentsFrom]
            rw [hhead]
            obtain ⟨after, rfl⟩ | ⟨text, rfl, hclose⟩ := hopen rfl
            · have ih := ih hrest
              simp only [segments, List.flatMap_cons, Segment.text, List.cons_append,
                List.nil_append, segmentsFrom, Char.reduceEq, if_false, if_true,
                List.cons.injEq, true_and] at ih ⊢
              exact ih
            · have htext : (text.map Segment.char).flatMap Segment.text = text := by
                simp [List.flatMap_map, Segment.text]
              rw [htext, segmentsFrom_unclosed hclose]
              rfl
          · simp only [Segment.text, List.cons_append, List.nil_append, segmentsFrom, if_neg hc]
            exact congrArg _ (ih hrest)
      | parameter name =>
          obtain ⟨hname, hrest⟩ := h
          have hhead : segmentsFrom none
              (Segment.text (.parameter name) ++ rest.flatMap Segment.text) =
              segmentsFrom (some []) (name ++ '}' :: rest.flatMap Segment.text) := by
            simp [Segment.text, segmentsFrom]
          rw [hhead, segmentsFrom_closed (brace_notMem hname).2, List.nil_append,
            if_neg (ne_nil_of_isParameterName hname)]
          exact congrArg _ (ih hrest)

theorem placeholders_flatMap_text {pieces : List Segment} (h : Proper pieces) :
    placeholders (pieces.flatMap Segment.text) = pieces.filterMap Segment.name? := by
  rw [← filterMap_segments, segments_flatMap_text h]

theorem Proper.isParameterName_of_mem {pieces : List Segment} (h : Proper pieces) :
    ∀ name ∈ pieces.filterMap Segment.name?, isParameterName name = true := by
  induction pieces with
  | nil => simp
  | cons piece rest ih =>
      cases piece with
      | char c => exact ih h.2
      | parameter name => exact List.forall_mem_cons.mpr ⟨h.1, ih h.2⟩

-- ============================================================================
-- Writing parameters out
-- ============================================================================

theorem flatMap_express_chars (text : Text) :
    (text.map Segment.char).flatMap Segment.express = text := by
  simp [List.flatMap_map, Segment.express]

theorem filterMap_name_chars (text : Text) :
    (text.map Segment.char).filterMap Segment.name? = [] := by
  induction text with
  | nil => rfl
  | cons c rest ih => exact ih

/-- Writing a parameter out leaves the other pieces as they are. -/
theorem Proper.writeOut {before : List Segment} {name : Text} {after : List Segment}
    (h : Proper (before ++ .parameter name :: after)) :
    Proper (before ++ (':' :: name).map .char ++ after) := by
  induction before with
  | nil =>
      obtain ⟨hname, hafter⟩ := h
      have htext {text : Text} (hopen : '{' ∉ text) : Proper (text.map .char ++ after) := by
        induction text with
        | nil => exact hafter
        | cons c rest ih =>
            obtain ⟨hc, hrest⟩ := not_or.mp (List.mem_cons.not.mp hopen)
            exact ⟨fun heq => absurd heq.symm hc, ih hrest⟩
      exact htext (by simpa using (brace_notMem hname).1)
  | cons piece before ih =>
      cases piece with
      | parameter other => exact ⟨h.1, ih h.2⟩
      | char c =>
          refine ⟨fun hc => ?_, ih h.2⟩
          -- what follows the brace holds a parameter, so it closes at once
          obtain ⟨rest, hrest⟩ | ⟨text, htext, -⟩ := h.1 hc
          · cases before with
            | nil => cases hrest
            | cons first before => exact .inl ⟨_, by cases hrest; rfl⟩
          · have hmem : Segment.parameter name ∈ text.map Segment.char := by
              rw [← htext]
              simp
            simp at hmem

/-- So the text of the identity is a template that is literal throughout. -/
theorem Proper.express {pieces : List Segment} (h : Proper pieces) :
    Proper ((pieces.flatMap Segment.express).map .char) := by
  have hrun (text : Text) (pieces : List Segment) (h : Proper (text.map .char ++ pieces)) :
      Proper ((text ++ pieces.flatMap Segment.express).map .char) := by
    induction pieces generalizing text with
    | nil => simpa using h
    | cons piece rest ih =>
        rw [List.flatMap_cons, ← List.append_assoc]
        apply ih
        cases piece with
        | char c => simpa [Segment.express] using h
        | parameter name => simpa [Segment.express] using h.writeOut
  exact hrun [] pieces h

-- ============================================================================
-- Identities
-- ============================================================================

/-- A request that has matched an idempotent route: its method is a token, and registration has
    found every name between braces among the declared parameters. -/
structure MatchedRoute where
  method : Text
  pathFormat : Text
  space_notMem : ' ' ∉ method
  parameters : ∀ name ∈ placeholders pathFormat, isParameterName name = true

namespace MatchedRoute

/-- `resolve_route`, with no route in the policy. -/
def identity (route : MatchedRoute) : Except Exc Text :=
  resolveRoute route.method (some route.pathFormat) none

def template (route : MatchedRoute) : Text := withoutSlashes route.pathFormat

theorem parameters_template (route : MatchedRoute) :
    ∀ name ∈ placeholders route.template, isParameterName name = true := by
  rw [template, placeholders_withoutSlashes]
  exact route.parameters

theorem identity_eq_iff (route route' : MatchedRoute) :
    route.identity = route'.identity ↔
      route.method = route'.method ∧ toExpress route.template = toExpress route'.template := by
  have hidentity (r : MatchedRoute) : r.identity = .ok (r.method ++ ' ' :: toExpress r.template) :=
    rfl
  rw [hidentity, hidentity, Except.ok.injEq]
  constructor
  · intro heq
    have hmethod (r : MatchedRoute) : ∀ c ∈ r.method, c ≠ ' ' :=
      fun c hc hspace => r.space_notMem (hspace ▸ hc)
    obtain ⟨hmethods, htail⟩ := append_inj_of_alphabet (hmethod route) (hmethod route')
      (startsIn_cons (not_not.mpr rfl)) (startsIn_cons (not_not.mpr rfl)) heq
    exact ⟨hmethods, (List.cons.inj htail).2⟩
  · rintro ⟨hmethods, htemplates⟩
    rw [hmethods, htemplates]

/-- `PATCH /items/{id}` -/
def ofParameter : MatchedRoute := ⟨"PATCH".toList, "/items/{id}".toList, by decide, by decide⟩

/-- `PATCH /items/{id}/` -/
def ofAlias : MatchedRoute := ⟨"PATCH".toList, "/items/{id}/".toList, by decide, by decide⟩

/-- `PATCH /items/{id}/price` -/
def ofPrice : MatchedRoute :=
  ⟨"PATCH".toList, "/items/{id}/price".toList, by decide, by decide⟩

/-- `PATCH /items/:id`, where the colon is literal -/
def ofColon : MatchedRoute := ⟨"PATCH".toList, "/items/:id".toList, by decide, by decide⟩

theorem identity_ofParameter_ofColon :
    ¬ ∀ route route' : MatchedRoute, route.identity = route'.identity ↔
      route.method = route'.method ∧ route.template = route'.template :=
  fun h => absurd ((h ofParameter ofColon).mp (by decide)).2 (by decide)

end MatchedRoute

-- ============================================================================
-- Templates that are told apart
-- ============================================================================

/-- The first piece is a character of this kind. -/
def startsWith (kind : Char → Bool) : List Segment → Bool
  | .char c :: _ => kind c
  | _ => false

/-- No literal colon stands in front of a name, and every parameter ends where its name does.
    Behind an opening brace that nothing closes there is literal text only, which no parameter
    can spell. -/
def WellDelimited : List Segment → Bool
  | [] => true
  | .char c :: rest =>
      c == '{' && !rest.contains (.char '}') ||
        !(c == ':' && startsWith isNameStart rest) && WellDelimited rest
  | .parameter _ :: rest => !startsWith isNameChar rest && WellDelimited rest

theorem wellDelimited_char {c : Char} {rest : List Segment} :
    WellDelimited (.char c :: rest) = true ↔
      c = '{' ∧ .char '}' ∉ rest ∨
        (c = ':' → startsWith isNameStart rest = false) ∧ WellDelimited rest = true := by
  simp [WellDelimited, imp_iff_not_or]

theorem colon_of_wellDelimited {rest : List Segment}
    (h : WellDelimited (.char ':' :: rest) = true) : startsWith isNameStart rest = false := by
  obtain ⟨hopen, -⟩ | ⟨hcolon, -⟩ := wellDelimited_char.mp h
  · simp at hopen
  · exact hcolon rfl

theorem startsIn_express {kind : Char → Bool} (hcolon : kind ':' = false) {pieces : List Segment}
    (h : startsWith kind pieces = false) :
    StartsIn (fun c => ¬ kind c = true) (pieces.flatMap Segment.express) := by
  cases pieces with
  | nil => exact startsIn_nil _
  | cons piece rest =>
      cases piece with
      | char c => exact startsIn_cons (by simpa [startsWith] using h)
      | parameter name => exact startsIn_cons (by simp [hcolon])

/-- What follows a literal colon is no name. -/
theorem name_ne_express {name rest : Text} {pieces : List Segment}
    (hname : isParameterName name = true) (h : startsWith isNameStart pieces = false) :
    name ++ rest ≠ pieces.flatMap Segment.express := by
  intro heq
  cases name with
  | nil => cases hname
  | cons c name =>
      refine startsIn_express (by decide) h c ?_ ?_
      · rw [← heq]
        rfl
      · rw [isParameterName, Bool.and_eq_true] at hname
        exact hname.1

/-- Behind an opening brace that nothing closes, pieces with the same text are the same. -/
theorem eq_of_unclosed {rest rest' : List Segment} (h : NotClosed rest) (h' : NotClosed rest')
    (hclose : .char '}' ∉ rest)
    (heq : rest.flatMap Segment.express = rest'.flatMap Segment.express) : rest = rest' := by
  obtain ⟨after, rfl⟩ | ⟨text, rfl, hnone⟩ := h
  · simp at hclose
  · rw [flatMap_express_chars] at heq
    obtain ⟨after, rfl⟩ | ⟨text', rfl, -⟩ := h'
    · rw [heq] at hnone
      simp [Segment.express] at hnone
    · rw [heq, flatMap_express_chars]

/-- Well-delimited pieces are read back from the text of the identity. -/
theorem express_injective {pieces pieces' : List Segment} (h : Proper pieces) (h' : Proper pieces')
    (hdelimited : WellDelimited pieces = true) (hdelimited' : WellDelimited pieces' = true)
    (heq : pieces.flatMap Segment.express = pieces'.flatMap Segment.express) : pieces = pieces' := by
  induction pieces generalizing pieces' with
  | nil =>
      cases pieces' with
      | nil => rfl
      | cons piece rest => cases piece with
        | char c => cases heq
        | parameter name => cases heq
  | cons piece rest ih =>
      cases pieces' with
      | nil => cases piece with
        | char c => cases heq
        | parameter name => cases heq
      | cons piece' rest' =>
          rw [List.flatMap_cons, List.flatMap_cons] at heq
          cases piece with
          | char c =>
              cases piece' with
              | char c' =>
                  obtain ⟨rfl, htail⟩ := List.cons.inj heq
                  obtain ⟨hopen, hclose⟩ | ⟨-, hdelimited⟩ := wellDelimited_char.mp hdelimited
                  · rw [eq_of_unclosed (h.1 hopen) (h'.1 hopen) hclose htail]
                  · obtain ⟨hopen, hclose⟩ | ⟨-, hdelimited'⟩ := wellDelimited_char.mp hdelimited'
                    · rw [eq_of_unclosed (h'.1 hopen) (h.1 hopen) hclose htail.symm]
                    · rw [ih h.2 h'.2 hdelimited hdelimited' htail]
              | parameter name =>
                  obtain ⟨rfl, htail⟩ := List.cons.inj heq
                  exact absurd htail.symm (name_ne_express h'.1 (colon_of_wellDelimited hdelimited))
          | parameter name =>
              cases piece' with
              | char c' =>
                  obtain ⟨rfl, htail⟩ := List.cons.inj heq
                  exact absurd htail (name_ne_express h.1 (colon_of_wellDelimited hdelimited'))
              | parameter name' =>
                  rw [WellDelimited, Bool.and_eq_true, Bool.not_eq_true'] at hdelimited hdelimited'
                  obtain ⟨rfl, htail⟩ := append_inj_of_alphabet
                    (fun c hc => isNameChar_of_mem h.1 hc) (fun c hc => isNameChar_of_mem h'.1 hc)
                    (startsIn_express (by decide) hdelimited.1)
                    (startsIn_express (by decide) hdelimited'.1) (List.cons.inj heq).2
                  rw [ih h.2 h'.2 hdelimited.2 hdelimited'.2 htail]

-- ============================================================================
-- Templates that are confused
-- ============================================================================

/-- Behind a brace that closes at once, other pieces with the same text close it too. -/
theorem NotClosed.of_express {rest rest' : List Segment} (h : NotClosed rest)
    (hclose : .char '}' ∈ rest)
    (heq : rest'.flatMap Segment.express = rest.flatMap Segment.express) : NotClosed rest' := by
  obtain ⟨after, rfl⟩ | ⟨text, rfl, hnone⟩ := h
  · cases rest' with
    | nil => cases heq
    | cons piece after' =>
        cases piece with
        | char c =>
            obtain ⟨rfl, -⟩ := List.cons.inj heq
            exact .inl ⟨after', rfl⟩
        | parameter name => exact absurd (List.cons.inj heq).1 (by decide)
  · exact absurd (by simpa using hclose) hnone

/-- A literal template that is not well-delimited reads as one with a parameter of one letter. -/
theorem exists_parameter {text : Text} (h : Proper (text.map .char))
    (hdelimited : WellDelimited (text.map .char) = false) :
    ∃ pieces, Proper pieces ∧ pieces.flatMap Segment.express = text ∧
      ∃ name, pieces.filterMap Segment.name? = [name] := by
  induction text with
  | nil => cases hdelimited
  | cons c rest ih =>
      rw [List.map_cons] at h hdelimited
      have hnot := mt wellDelimited_char.mpr (Bool.eq_false_iff.mp hdelimited)
      by_cases hstart : c = ':' ∧ startsWith isNameStart (rest.map .char) = true
      · obtain ⟨rfl, hstart⟩ := hstart
        cases rest with
        | nil => cases hstart
        | cons d rest =>
            refine ⟨.parameter [d] :: rest.map .char, ⟨?_, h.2.2⟩, ?_, [d], ?_⟩
            · simpa [isParameterName, startsWith] using hstart
            · rw [List.flatMap_cons, flatMap_express_chars]
              rfl
            · simp [Segment.name?]
      · -- the pieces behind `c` stay behind it
        have hrest : WellDelimited (rest.map .char) = false := by
          by_contra htrue
          refine hnot (.inr ⟨fun hc => ?_, Bool.not_eq_false _ ▸ htrue⟩)
          exact Bool.eq_false_iff.mpr fun hname => hstart ⟨hc, hname⟩
        obtain ⟨pieces, hproper, hexpress, name, hname⟩ := ih h.2 hrest
        refine ⟨.char c :: pieces, ⟨fun hc => ?_, hproper⟩, ?_, name, hname⟩
        · have hclose : .char '}' ∈ rest.map Segment.char := by
            by_contra hclose
            exact hnot (.inl ⟨hc, hclose⟩)
          exact (h.1 hc).of_express hclose (by rw [hexpress, flatMap_express_chars])
        · rw [List.flatMap_cons, hexpress]
          rfl

/-- A template that is not well-delimited shares its text with another one: written out if it
    has parameters, and read with a parameter if it has none. -/
theorem exists_confused {pieces : List Segment} (h : Proper pieces)
    (hdelimited : WellDelimited pieces = false) :
    ∃ pieces', Proper pieces' ∧
      pieces'.flatMap Segment.express = pieces.flatMap Segment.express ∧
      pieces' ≠ pieces ∧ (pieces'.filterMap Segment.name?).Nodup := by
  by_cases hliteral : ∃ text : Text, pieces = text.map .char
  · obtain ⟨text, rfl⟩ := hliteral
    obtain ⟨pieces', hproper, hexpress, name, hname⟩ := exists_parameter h hdelimited
    refine ⟨pieces', hproper, by rw [hexpress, flatMap_express_chars], ?_, by simp [hname]⟩
    rintro rfl
    rw [filterMap_name_chars] at hname
    cases hname
  · refine ⟨(pieces.flatMap Segment.express).map .char, h.express, flatMap_express_chars _, ?_, ?_⟩
    · exact fun heq => hliteral ⟨_, heq.symm⟩
    · rw [filterMap_name_chars]
      exact List.nodup_nil

-- ============================================================================
-- Slashes at the end
-- ============================================================================

/-- Neither a brace nor a name ends in a slash. -/
theorem getLast?_express {pieces : List Segment}
    (h : ∀ name ∈ pieces.filterMap Segment.name?, isParameterName name = true) :
    (pieces.flatMap Segment.express).getLast? = some '/' ↔
      (pieces.flatMap Segment.text).getLast? = some '/' := by
  cases pieces using List.reverseRecOn with
  | nil => rfl
  | append_singleton before piece =>
      rw [List.flatMap_append, List.flatMap_append, List.flatMap_singleton, List.flatMap_singleton]
      cases piece with
      | char c => simp [Segment.express, Segment.text]
      | parameter name =>
          have hname := h name (by simp [Segment.name?])
          have hslash : '/' ∉ name := fun hmem =>
            absurd (isNameChar_of_mem hname hmem) (by decide)
          have hlast : name.getLast? ≠ some '/' := fun hlast =>
            hslash (List.mem_of_getLast? hlast)
          obtain ⟨c, hc⟩ := Option.ne_none_iff_exists'.mp
            (mt List.getLast?_eq_none_iff.mp (ne_nil_of_isParameterName hname))
          rw [hc] at hlast
          simpa [Segment.express, Segment.text, List.getLast?_cons, hc] using hlast

theorem withoutSlashes_eq_self {template : Text} (hne : template ≠ [])
    (h : template.getLast? ≠ some '/') : withoutSlashes template = template := by
  cases template using List.reverseRecOn with
  | nil => exact absurd rfl hne
  | append_singleton rest c =>
      have hc : c ≠ '/' := by simpa using h
      rw [withoutSlashes, List.rdropWhile_concat_neg _ _ _ (by simpa using hc), if_neg hne]

theorem getLast?_withoutSlashes {template : Text} (h : withoutSlashes template ≠ ['/']) :
    (withoutSlashes template).getLast? ≠ some '/' := by
  rw [withoutSlashes] at h ⊢
  split at h
  · exact absurd rfl h
  · next hne =>
      rw [if_neg hne]
      have hlast := List.rdropWhile_last_not _ _ hne
      intro hslash
      rw [List.getLast?_eq_some_getLast hne] at hslash
      simp [Option.some.inj hslash] at hlast

namespace MatchedRoute

theorem identity_eq_of_wellDelimited (route route' : MatchedRoute)
    (h : WellDelimited (segments route.template) = true)
    (h' : WellDelimited (segments route'.template) = true) :
    route.identity = route'.identity ↔
      route.method = route'.method ∧ route.template = route'.template := by
  rw [identity_eq_iff]
  refine and_congr_right fun _ => ⟨fun heq => ?_, fun heq => by rw [heq]⟩
  have hsegments := express_injective (proper_segments route.parameters_template)
    (proper_segments route'.parameters_template) h h' heq
  rw [← flatMap_text_segments route.template, hsegments, flatMap_text_segments]

/-- The route with the same method and a template of these pieces. -/
def withPieces (route : MatchedRoute) (pieces : List Segment) (h : Proper pieces) :
    MatchedRoute where
  method := route.method
  pathFormat := pieces.flatMap Segment.text
  space_notMem := route.space_notMem
  parameters := by
    rw [placeholders_flatMap_text h]
    exact h.isParameterName_of_mem

theorem exists_identity_eq {route : MatchedRoute}
    (h : WellDelimited (segments route.template) = false) :
    ∃ route' : MatchedRoute, (placeholders route'.pathFormat).Nodup ∧
      route'.method = route.method ∧ route'.template ≠ route.template ∧
      route'.identity = route.identity := by
  have hproper := proper_segments route.parameters_template
  obtain ⟨pieces, hproper', hexpress, hne, hnodup⟩ := exists_confused hproper h
  have htext := flatMap_text_segments route.template
  -- the other template has its slashes where this one has them, so it keeps its end
  have hself : withoutSlashes (pieces.flatMap Segment.text) = pieces.flatMap Segment.text := by
    apply withoutSlashes_eq_self
    · intro hnil
      have hpieces := segments_flatMap_text hproper'
      rw [hnil] at hpieces
      rw [← hpieces] at hexpress
      cases hsegments : segments route.template with
      | nil => simp [hsegments, WellDelimited] at h
      | cons piece rest =>
          rw [hsegments] at hexpress
          cases piece with
          | char c => cases hexpress
          | parameter name => cases hexpress
    · rw [Ne, ← getLast?_express hproper'.isParameterName_of_mem, hexpress,
        getLast?_express hproper.isParameterName_of_mem, htext]
      apply getLast?_withoutSlashes
      intro hslash
      rw [template, hslash] at h
      exact absurd h (by decide)
  have htemplate : (route.withPieces pieces hproper').template = pieces.flatMap Segment.text := hself
  refine ⟨route.withPieces pieces hproper', ?_, rfl, ?_, ?_⟩
  · show (placeholders (pieces.flatMap Segment.text)).Nodup
    rwa [placeholders_flatMap_text hproper']
  · intro heq
    rw [htemplate] at heq
    rw [← heq, segments_flatMap_text hproper'] at hne
    exact hne rfl
  · rw [identity_eq_iff, htemplate]
    refine ⟨rfl, ?_⟩
    rw [toExpress, segments_flatMap_text hproper', hexpress, toExpress]

/-- Identities keep routes apart whose templates are well-delimited, and a route whose template
    is not shares its identity with a route that has another template. -/
theorem identity_separates_wellDelimited (route : MatchedRoute) :
    (WellDelimited (segments route.template) = true →
      ∀ route' : MatchedRoute, WellDelimited (segments route'.template) = true →
        (route.identity = route'.identity ↔
          route.method = route'.method ∧ route.template = route'.template)) ∧
    (WellDelimited (segments route.template) = false →
      ∃ route' : MatchedRoute, (placeholders route'.pathFormat).Nodup ∧
        route'.method = route.method ∧ route'.template ≠ route.template ∧
        route'.identity = route.identity) :=
  ⟨fun h route' h' => identity_eq_of_wellDelimited route route' h h', exists_identity_eq⟩

/-- The alias of `/items/{id}` shares its identity and `/items/{id}/price` does not; the literal
    `/items/:id` shares it with a route that is not its alias. -/
theorem identity_separates_wellDelimited_items :
    ofParameter.identity = ofAlias.identity ∧ ofParameter.identity ≠ ofPrice.identity ∧
      ∃ route : MatchedRoute, route.template ≠ ofColon.template ∧
        route.identity = ofColon.identity := by
  have hparameter := (identity_separates_wellDelimited ofParameter).1 (by decide)
  obtain ⟨route, -, -, hne, hidentity⟩ :=
    (identity_separates_wellDelimited ofColon).2 (by decide)
  refine ⟨(hparameter ofAlias (by decide)).mpr ⟨rfl, by decide⟩, fun heq => ?_, route, hne,
    hidentity⟩
  have htemplate := ((hparameter ofPrice (by decide)).mp heq).2
  exact absurd htemplate (by decide)

end MatchedRoute

end QuickApi.Mutation
