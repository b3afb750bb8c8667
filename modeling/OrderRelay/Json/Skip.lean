import OrderRelay.Json.Token

/-!
# Passing over a value

A value that nobody asks for is passed over, at any depth of nesting. Only its grammar is checked: a
number may be too large and a text need not be UTF-8.

* `skip`: the tokens after the value.
* `length_lt_of_skip`: at least one token is passed over.
-/

namespace OrderRelay.Json

namespace Skip

/-- A structure that is still open. -/
inductive Frame where
  | array
  | object

/-- What comes next within the open structures. -/
inductive Phase where
  /-- A value. -/
  | value
  /-- The first part of the innermost structure, or its end. -/
  | first
  /-- A comma, or the end of the innermost structure. -/
  | after
  /-- The name of a member. -/
  | key
  /-- The colon after a name. -/
  | colon

/-- The open structures, innermost first, and what comes next. -/
structure State where
  frames : List Frame
  phase : Phase

/-- The state after a value; none if nothing is open any more. -/
def finish : List Frame → Option State
  | [] => none
  | frames => some ⟨frames, .after⟩

/-- A value starts here. -/
def value (frames : List Frame) (t : Token) : Except Fault (Option State) :=
  match t.lexeme with
  | .null | .bool _ | .text _ | .number _ => .ok (finish frames)
  | .openArray => .ok (some ⟨.array :: frames, .first⟩)
  | .openObject => .ok (some ⟨.object :: frames, .first⟩)
  | .broken _ _ skipped => .error skipped
  | _ => .error (t.refuse .expectedValue)

/-- A name stands here. -/
def key (frames : List Frame) (t : Token) : Except Fault (Option State) :=
  match t.lexeme with
  | .text _ => .ok (some ⟨frames, .colon⟩)
  | .broken true _ skipped => .error skipped
  | _ => .error (t.refuse .keyNotText)

/-- The state after one more token; none if the value is complete. -/
def step (s : State) (t : Token) : Except Fault (Option State) :=
  match s.phase, s.frames, t.lexeme with
  | .value, frames, _ => value frames t
  | .key, frames, _ => key frames t
  | .colon, frames, .colon => .ok (some ⟨frames, .value⟩)
  | .colon, _, _ => .error (t.refuse .expectedColon)
  | _, .array :: frames, .closeArray => .ok (finish frames)
  | _, .object :: frames, .closeObject => .ok (finish frames)
  | .first, .object :: frames, _ => key (.object :: frames) t
  | .first, frames, _ => value frames t
  | .after, .object :: frames, .comma => .ok (some ⟨.object :: frames, .key⟩)
  | .after, frames, .comma => .ok (some ⟨frames, .value⟩)
  | .after, .object :: _, _ => .error (t.refuse .expectedObjectComma)
  | .after, _, _ => .error (t.refuse .expectedArrayComma)

/-- What the end of the text leaves open. -/
def State.unfinished (s : State) : Unfinished :=
  match s.phase, s.frames with
  | .value, _ => .value
  | _, .array :: _ => .array
  | _, _ => .object

/-- Passes over tokens until the value is complete. -/
def run (s : State) : List Token → Except Fault (List Token)
  | [] => .error (.unfinished s.unfinished)
  | t :: rest =>
    match step s t with
    | .error fault => .error fault
    | .ok none => .ok rest
    | .ok (some s) => run s rest

theorem length_lt_of_run {s : State} {ts rest : List Token} (h : run s ts = .ok rest) :
    rest.length < ts.length := by
  induction ts generalizing s with
  | nil => simp [run] at h
  | cons t ts ih =>
    simp only [run] at h
    split at h
    · simp at h
    · simp only [Except.ok.injEq] at h
      simp [h]
    · have := ih h
      simp only [List.length_cons]
      omega

end Skip

/-- The tokens after the value at the front. -/
def skip (ts : List Token) : Except Fault (List Token) := Skip.run ⟨[], .value⟩ ts

theorem length_lt_of_skip {ts rest : List Token} (h : skip ts = .ok rest) :
    rest.length < ts.length := Skip.length_lt_of_run h

end OrderRelay.Json
