import VgcMalloc.Text.Strings

/-!
# Stack traces

`vgc_stacktrace.c`: the frames of a stack trace, as `backtrace_symbols` prints
them, are rewritten in place and handed to `addr2line`.  What `popen` and
`fgets` give for a command is a parameter.
-/

namespace VgcMalloc

open Text

/-! ## The process -/

/-- `ProcessPath`: the path of the executable, and where its base name
starts. -/
structure ProcessPath where
  path : List Char
  base : Nat
  positive : 0 < base
  inside : base ≤ path.length

namespace ProcessPath

/-- The string at `self->base`. -/
def baseName (self : ProcessPath) : List Char := self.path.drop self.base

/-- The path in front of the base name. -/
def directory (self : ProcessPath) : List Char := self.path.take self.base

/-- `*self->base = 0`. -/
def cut (self : ProcessPath) : ProcessPath where
  path := self.path.take self.base
  base := self.base
  positive := self.positive
  inside := by
    rw [List.length_take]
    exact Nat.le_min.mpr ⟨Nat.le_refl _, self.inside⟩

end ProcessPath

/-- `getProcessPath` for the target of `/proc/self/exe`, which has a slash. -/
def getProcessPath (link : List Char) : Option ProcessPath :=
  let path := link.take 127
  match found : strrchr path '/' with
  | none => none
  | some slash => some ⟨path, slash + 1, Nat.succ_pos slash,
      (List.getElem?_eq_some_iff.mp (getElem?_of_strrchr found)).1⟩

/-! ## One frame -/

/-- A frame of a system library, which is skipped. -/
def IsLibrary (frame : List Char) : Prop :=
  startsWith frame "/lib/".toList ∨ startsWith frame "/lib64/".toList ∨
    startsWith frame "/usr/lib64/".toList

instance (frame : List Char) : Decidable (IsLibrary frame) :=
  inferInstanceAs (Decidable (_ ∨ _ ∨ _))

/-- The rewriting of a frame in place: blanks for the brackets, and the end in
front of the last one.  None when a search gives a null pointer, which is
searched or written through next. -/
def rewriteFrame (message : List Char) : Option (List Char) := do
  let space ← strchr message 0 '('
  let last ← strchr message space ')'
  let message := (message.set space ' ').set last ' '
  let last ← strchr message last '['
  let message := message.set last ' '
  let last ← strchr message last ']'
  return message.take last

/-- The arguments of the command for a frame. -/
structure Command where
  directory : List Char
  message : List Char
  deriving DecidableEq, Repr

/-- The command in its buffer of 1024 bytes. -/
def Command.text (command : Command) : List Char :=
  snprintf 1024 ("addr2line -Cfipe ".toList ++ command.directory ++ command.message)

/-! ## The loop -/

/-- A frame with the command that was built for it, and what was shown of the
answer. -/
structure Resolved where
  frame : List Char
  command : Command
  shown : Option (List Char)

/-- How the loop ends: at the last frame, with a search in a frame that finds
nothing, or with an answer without a line end. -/
inductive TraceEnd where
  | finished
  | searchFailed
  | unendedLine
  deriving DecidableEq, Repr

/-- The loop of `stacktrace` over the frames that are left. -/
def resolveFrames (addr2line : List Char → Option (List Char)) :
    ProcessPath → List (List Char) → List Resolved × TraceEnd
  | _, [] => ([], .finished)
  | self, frame :: rest =>
      if IsLibrary frame then resolveFrames addr2line self rest
      else
        match rewriteFrame frame with
        | none => ([], .searchFailed)
        | some message =>
            let inProgram := startsWith message self.baseName
            let command : Command :=
              ⟨if inProgram then self.directory else [], message⟩
            let self := if inProgram then self.cut else self
            match addr2line command.text with
            | none =>
                let (later, ending) := resolveFrames addr2line self rest
                (⟨frame, command, none⟩ :: later, ending)
            | some result =>
                match strchr result 0 '\n' with
                | none => ([⟨frame, command, none⟩], .unendedLine)
                | some newline =>
                    let shown := if result.head? = some '?' then none
                      else some (result.take newline)
                    let (later, ending) := resolveFrames addr2line self rest
                    (⟨frame, command, shown⟩ :: later, ending)

/-- The frames that `stacktrace` looks at: all but the first three and the
last. -/
def tracedFrames (messages : List (List Char)) : List (List Char) :=
  (messages.take (messages.length - 1)).drop 3

/-- `stacktrace`. -/
def stacktrace (addr2line : List Char → Option (List Char)) (self : ProcessPath)
    (messages : List (List Char)) : List Resolved × TraceEnd :=
  resolveFrames addr2line self (tracedFrames messages)

/-! ## `backtrace_symbols` -/

/-- A frame of an address in a known object. -/
def namedFrame (file symbol offset address : List Char) : List Char :=
  file ++ '(' :: (symbol ++ offset) ++ ')' :: ' ' :: '[' :: address ++ [']']

/-- A frame of an address in no known object. -/
def bareFrame (address : Nat) : List Char :=
  '[' :: '0' :: 'x' :: hex 0 address ++ [']']

/-- A frame that `backtrace_symbols` can produce. -/
inductive IsFrame : List Char → Prop where
  | named (file symbol offset address : List Char) :
      IsFrame (namedFrame file symbol offset address)
  | bare (address : Nat) : IsFrame (bareFrame address)

end VgcMalloc
