/-! # Control sequences of a terminal

A control sequence is an escape character and an opening bracket, parameters, intermediates and one
final character, each from a range of its own. A terminal obeys it instead of showing it.
-/

namespace CoinLedger.Text

/-- The escape character. -/
def escape : Char := '\x1b'

/-- Whether a character is a parameter of a control sequence. -/
def isParameter (c : Char) : Bool := '0' ≤ c && c ≤ '?'

/-- Whether a character is an intermediate of a control sequence. -/
def isIntermediate (c : Char) : Bool := ' ' ≤ c && c ≤ '/'

/-- Whether a character ends a control sequence. -/
def isFinal (c : Char) : Bool := '@' ≤ c && c ≤ '~'

/-- What follows the control sequence whose escape character stands in front of a text, if there is
one. -/
def afterControl : List Char → Option (List Char)
  | '[' :: rest =>
      match (rest.dropWhile isParameter).dropWhile isIntermediate with
      | c :: after => if isFinal c then some after else none
      | [] => none
  | _ => none

/-- A control sequence takes up something. -/
theorem length_afterControl {text after : List Char} (controlled : afterControl text = some after) :
    after.length < text.length := by
  unfold afterControl at controlled
  split at controlled
  · next rest =>
      split at controlled
      · next c tail remains =>
          split at controlled
          · cases controlled
            have outer : ((rest.dropWhile isParameter).dropWhile isIntermediate).length ≤
                (rest.dropWhile isParameter).length := (List.dropWhile_sublist _).length_le
            have inner : (rest.dropWhile isParameter).length ≤ rest.length :=
              (List.dropWhile_sublist _).length_le
            rw [remains] at outer
            simp only [List.length_cons] at *
            omega
          · cases controlled
      · cases controlled
  · cases controlled

/-- The characters of a text that are not in control sequences. -/
def uncontrolled : List Char → List Char
  | [] => []
  | c :: rest =>
      if c = escape then
        match _controlled : afterControl rest with
        | some after => uncontrolled after
        | none => c :: uncontrolled rest
      else c :: uncontrolled rest
termination_by text => text.length
decreasing_by
  · have := length_afterControl _controlled
    simp only [List.length_cons]
    omega
  all_goals simp only [List.length_cons]; omega

/-- A text as a terminal without control sequences shows it. -/
def withoutControls (text : String) : String := String.ofList (uncontrolled text.toList)

/-- A text without the escape character has no control sequences. -/
theorem uncontrolled_of_not_mem {text : List Char} (absent : escape ∉ text) :
    uncontrolled text = text := by
  induction text with
  | nil => simp [uncontrolled]
  | cons c rest inductive_step =>
      have different : c ≠ escape := fun same => absent (same ▸ List.mem_cons_self)
      have below := inductive_step fun member => absent (List.mem_cons_of_mem _ member)
      simp [uncontrolled, different, below]

end CoinLedger.Text
