/-!
# Escaped text

The five reserved characters of HTML are written as entities.  An escaped text
is written in pieces: the runs of ordinary characters and the entities between
them.

Main results:

- Theorem `escape_append`: characters are escaped one by one.
- Theorem `flatten_escapePieces`: the pieces are the escaped text.
-/

namespace Mustache.Html

/-- The entity of a reserved character. -/
def entity? : Char → Option (List Char)
  | '&' => some ['&', 'a', 'm', 'p', ';']
  | '<' => some ['&', 'l', 't', ';']
  | '>' => some ['&', 'g', 't', ';']
  | '"' => some ['&', 'q', 'u', 'o', 't', ';']
  | '\'' => some ['&', '#', '3', '9', ';']
  | _ => none

/-- How a character is written. -/
def escapeChar (c : Char) : List Char :=
  (entity? c).getD [c]

/-- The escaped text. -/
def escape (cs : List Char) : List Char :=
  cs.flatMap escapeChar

@[simp]
theorem escape_nil : escape [] = [] :=
  rfl

/-- Texts in a row are escaped one after the other. -/
@[simp]
theorem escape_append (xs ys : List Char) : escape (xs ++ ys) = escape xs ++ escape ys := by
  simp [escape]

/-- The escaped text in pieces; runs, which may be empty, and entities take turns. -/
def escapePieces : List Char → List (List Char)
  | [] => [[]]
  | c :: cs =>
    match entity? c with
    | some entity => [] :: entity :: escapePieces cs
    | none =>
      match escapePieces cs with
      | [] => [[c]]
      | run :: rest => (c :: run) :: rest

/-- The pieces of an escaped text are the escaped text. -/
theorem flatten_escapePieces (cs : List Char) : (escapePieces cs).flatten = escape cs := by
  induction cs with
  | nil => rfl
  | cons c cs ih =>
    rw [escapePieces, escape, List.flatMap_cons, ← escape, ← ih, escapeChar]
    split
    · rename_i entity he
      simp [he]
    · rename_i he
      split
      · rename_i hnil
        simp [he, hnil]
      · rename_i run rest hcons
        simp [he, hcons]

/-- The escaped text of a string. -/
def escapeString (s : String) : String :=
  String.ofList (escape s.toList)

end Mustache.Html
