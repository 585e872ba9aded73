import XSKNet.CStrings

/- Command lines for a POSIX shell. A byte is plain when it is neither white space nor one
   of the characters that have a meaning to the shell unless quoted, the braces among them,
   which a shell that is bash expands:
   | & ; < > ( ) $ ` \ " ' * ? [ # ~ = % { } -/
namespace ShellWords
open CStrings

def specials : List UInt8 :=
  [124, 38, 59, 60, 62, 40, 41, 36, 96, 92, 34, 39, 42, 63, 91, 35, 126, 61, 37,
    123, 125]

def isSpace (b : UInt8) : Bool := b == 32 || (9 ≤ b && b ≤ 13)

def plainByte (b : UInt8) : Bool := !isSpace b && !specials.contains b

def Plain (w : List UInt8) : Prop := w ≠ [] ∧ ∀ b ∈ w, plainByte b = true

instance (w : List UInt8) : Decidable (Plain w) := inferInstanceAs (Decidable (_ ∧ _))

def words (cmd : List UInt8) : List (List UInt8) := cmd.splitOnP isSpace

def line (script : List UInt8) (args : List (List UInt8)) : List UInt8 :=
  script ++ (args.map fun a => 32 :: a).flatten

/-- The shell reads cmd as one invocation of script with these arguments. -/
structure Invokes (cmd : List UInt8) (script : List UInt8) (args : List (List UInt8)) :
    Prop where
  text : cmd = line script args
  plain : ∀ a ∈ args, Plain a
  fields : words cmd = script :: args

theorem plain_no_space {w : List UInt8} (plain : Plain w) : ∀ b ∈ w, isSpace b = false := by
  intro b member
  have clean := plain.2 b member
  unfold plainByte at clean
  cases space : isSpace b with
  | false => rfl
  | true => simp [space] at clean

theorem words_line (script : List UInt8) (args : List (List UInt8)) (path : Plain script)
    (plain : ∀ a ∈ args, Plain a) : words (line script args) = script :: args := by
  unfold words
  induction args generalizing script with
  | nil =>
    rw [line, List.map_nil, List.flatten_nil, List.append_nil]
    exact List.splitOnP_eq_singleton (plain_no_space path)
  | cons a rest ih =>
    have shape : line script (a :: rest) = script ++ 32 :: line a rest := by
      simp [line]
    rw [shape, List.splitOnP_append_cons_of_forall_mem (plain_no_space path) 32 (by decide)]
    rw [ih a (plain a List.mem_cons_self) fun b member => plain b (List.mem_cons_of_mem a member)]

theorem invokes_iff (script : List UInt8) (args : List (List UInt8)) (path : Plain script) :
    Invokes (line script args) script args ↔ ∀ a ∈ args, Plain a := by
  constructor
  · intro run
    exact run.plain
  · intro plain
    exact ⟨rfl, plain, words_line script args path plain⟩

theorem invokes_bytes {cmd script : List UInt8} {args : List (List UInt8)} (path : Plain script)
    (run : Invokes cmd script args) {b : UInt8} (member : b ∈ cmd) :
    b = 32 ∨ plainByte b = true := by
  rw [run.text, line, List.mem_append, List.mem_flatten] at member
  rcases member with in_path | ⟨field, at_field, inside⟩
  · exact Or.inr (path.2 b in_path)
  · obtain ⟨a, at_arg, rfl⟩ := List.mem_map.mp at_field
    rcases List.mem_cons.mp inside with rfl | in_arg
    · exact Or.inl rfl
    · exact Or.inr ((run.plain a at_arg).2 b in_arg)

end ShellWords
