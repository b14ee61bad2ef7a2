import VgcMalloc.Model.Stacktrace

/-!
# Frames of a stack trace

The first frame of the program itself cuts the base name off the path, so that
every later frame is taken for one of the program.  A frame without an object
has no bracket to search for.
-/

namespace VgcMalloc

open Text

variable {addr2line : List Char → Option (List Char)} {self now : ProcessPath}
  {frame message text : List Char} {frames messages : List (List Char)} {resolved : Resolved}

/-! ## Rewriting -/

/-- Brackets in this order are enough for all searches: each of them comes to
an end at the bracket of its kind, or before it. -/
theorem exists_rewriteFrame {first second third fourth : Nat}
    (opens : text[first]? = some '(') (closes : text[second]? = some ')')
    (begins : text[third]? = some '[') (ends : text[fourth]? = some ']')
    (order : first < second ∧ second < third ∧ third < fourth) :
    ∃ message, rewriteFrame text = some message := by
  obtain ⟨space, spaceLe, spaceFound⟩ := exists_strchr_le (Nat.zero_le first) opens
  obtain ⟨last, lastLe, lastFound⟩ := exists_strchr_le (show space ≤ second by omega) closes
  have beginsStill : ((text.set space ' ').set last ' ')[third]? = some '[' := by
    rw [List.getElem?_set_ne (by omega), List.getElem?_set_ne (by omega)]
    exact begins
  obtain ⟨bracket, bracketLe, bracketFound⟩ :=
    exists_strchr_le (show last ≤ third by omega) beginsStill
  have endsStill : (((text.set space ' ').set last ' ').set bracket ' ')[fourth]? = some ']' := by
    rw [List.getElem?_set_ne (by omega), List.getElem?_set_ne (by omega),
      List.getElem?_set_ne (by omega)]
    exact ends
  obtain ⟨final, _, finalFound⟩ := exists_strchr_le (show bracket ≤ fourth by omega) endsStill
  refine ⟨(((text.set space ' ').set last ' ').set bracket ' ').take final, ?_⟩
  rw [rewriteFrame, spaceFound, Option.bind_eq_bind, Option.bind_some, lastFound]
  simp only [Option.bind_some, bracketFound, finalFound]
  rfl

/-- All searches in a frame of a known object find their character. -/
theorem exists_rewriteFrame_named (file symbol offset address : List Char) :
    ∃ message, rewriteFrame (namedFrame file symbol offset address) = some message := by
  have here : ∀ {front back : List Char} {char : Char},
      namedFrame file symbol offset address = front ++ char :: back →
        (namedFrame file symbol offset address)[front.length]? = some char := by
    rintro front back char split
    rw [split, List.getElem?_append_right (Nat.le_refl _), Nat.sub_self]
    rfl
  have opens : namedFrame file symbol offset address =
      file ++ '(' :: (symbol ++ offset ++ ')' :: ' ' :: '[' :: address ++ [']']) := by
    simp [namedFrame]
  have closes : namedFrame file symbol offset address =
      (file ++ '(' :: (symbol ++ offset)) ++ ')' :: (' ' :: '[' :: address ++ [']']) := by
    simp [namedFrame]
  have begins : namedFrame file symbol offset address =
      (file ++ '(' :: (symbol ++ offset) ++ [')', ' ']) ++ '[' :: (address ++ [']']) := by
    simp [namedFrame]
  apply exists_rewriteFrame (here opens) (here closes) (here begins) (here rfl)
  simp only [List.length_append, List.length_cons, List.length_nil]
  omega

/-- The digits of an address are no bracket. -/
theorem not_mem_bareFrame (address : Nat) : '(' ∉ bareFrame address := by
  intro member
  unfold bareFrame at member
  simp only [List.cons_append, List.mem_cons, List.mem_append, List.not_mem_nil, or_false] at member
  rcases member with same | same | same | digit | same
  · exact absurd same (by decide)
  · exact absurd same (by decide)
  · exact absurd same (by decide)
  · exact absurd (mem_hex digit) (by decide)
  · exact absurd same (by decide)

/-- A frame of an address in no known object has nothing to search for. -/
theorem rewriteFrame_bare (address : Nat) : rewriteFrame (bareFrame address) = none := by
  rw [rewriteFrame, strchr_eq_none (not_mem_bareFrame address)]
  rfl

theorem not_isLibrary_bare (address : Nat) : ¬IsLibrary (bareFrame address) := by
  rintro (starts | starts | starts) <;>
    exact absurd (List.cons_prefix_cons.mp starts).1 (by decide)

/-- Among the frames of `backtrace_symbols` those without an object cannot be
rewritten. -/
theorem IsFrame.rewriteFrame_eq_none_iff (is : IsFrame frame) :
    rewriteFrame frame = none ↔ ∃ address, frame = bareFrame address := by
  constructor
  · intro fails
    cases is with
    | named file symbol offset address =>
        obtain ⟨message, found⟩ := exists_rewriteFrame_named file symbol offset address
        rw [found] at fails
        cases fails
    | bare address => exact ⟨address, rfl⟩
  · rintro ⟨address, rfl⟩
    exact rewriteFrame_bare address

/-! ## The loop -/

/-- The command that the loop builds with this path. -/
def ProcessPath.command (self : ProcessPath) (message : List Char) : Command :=
  ⟨if startsWith message self.baseName then self.directory else [], message⟩

/-- The path that the loop goes on with. -/
def ProcessPath.next (self : ProcessPath) (message : List Char) : ProcessPath :=
  if startsWith message self.baseName then self.cut else self

theorem resolveFrames_library (library : IsLibrary frame) :
    resolveFrames addr2line now (frame :: frames) = resolveFrames addr2line now frames := by
  rw [resolveFrames, if_pos library]

theorem resolveFrames_stuck (program : ¬IsLibrary frame) (stuck : rewriteFrame frame = none) :
    resolveFrames addr2line now (frame :: frames) = ([], .searchFailed) := by
  rw [resolveFrames, if_neg program, stuck]

/-- A command that cannot be run. -/
theorem resolveFrames_none (program : ¬IsLibrary frame)
    (rewritten : rewriteFrame frame = some message) :
    resolveFrames (fun _ => none) now (frame :: frames) =
      (⟨frame, now.command message, none⟩ ::
          (resolveFrames (fun _ => none) (now.next message) frames).1,
        (resolveFrames (fun _ => none) (now.next message) frames).2) := by
  rw [resolveFrames, if_neg program, rewritten]
  rfl

/-- Any other command: the loop ends with its answer, or goes on. -/
theorem resolveFrames_some (program : ¬IsLibrary frame)
    (rewritten : rewriteFrame frame = some message) :
    ∃ shown, resolveFrames addr2line now (frame :: frames) =
        ([⟨frame, now.command message, shown⟩], .unendedLine) ∨
      resolveFrames addr2line now (frame :: frames) =
        (⟨frame, now.command message, shown⟩ ::
            (resolveFrames addr2line (now.next message) frames).1,
          (resolveFrames addr2line (now.next message) frames).2) := by
  rw [resolveFrames, if_neg program, rewritten]
  simp only [ProcessPath.command, ProcessPath.next]
  split
  · exact ⟨none, Or.inr rfl⟩
  · split
    · exact ⟨none, Or.inl rfl⟩
    · exact ⟨_, Or.inr rfl⟩

/-- A search fails only in a frame that is not skipped and cannot be
rewritten. -/
theorem exists_of_searchFailed
    (failed : (resolveFrames addr2line now frames).2 = .searchFailed) :
    ∃ frame ∈ frames, ¬IsLibrary frame ∧ rewriteFrame frame = none := by
  induction frames generalizing now with
  | nil => cases failed
  | cons frame rest ih =>
      have later : ∀ {path}, (resolveFrames addr2line path rest).2 = .searchFailed →
          ∃ other ∈ frame :: rest, ¬IsLibrary other ∧ rewriteFrame other = none := by
        intro path fails
        obtain ⟨other, member, stuck⟩ := ih fails
        exact ⟨other, List.mem_cons_of_mem _ member, stuck⟩
      by_cases library : IsLibrary frame
      · rw [resolveFrames_library library] at failed
        exact later failed
      · cases rewritten : rewriteFrame frame with
        | none => exact ⟨frame, List.mem_cons_self, library, rewritten⟩
        | some message =>
            obtain ⟨shown, ends | goesOn⟩ := resolveFrames_some library rewritten
            · rw [ends] at failed
              cases failed
            · rw [goesOn] at failed
              exact later failed

/-- Such a frame is reached when no command can be run. -/
theorem searchFailed_of_exists
    (stuck : ∃ frame ∈ frames, ¬IsLibrary frame ∧ rewriteFrame frame = none) :
    (resolveFrames (fun _ => none) now frames).2 = .searchFailed := by
  induction frames generalizing now with
  | nil =>
      obtain ⟨_, impossible, _⟩ := stuck
      exact absurd impossible List.not_mem_nil
  | cons frame rest ih =>
      obtain ⟨other, member, program, fails⟩ := stuck
      by_cases library : IsLibrary frame
      · rw [resolveFrames_library library]
        rcases List.mem_cons.mp member with rfl | later
        · exact absurd library program
        · exact ih ⟨other, later, program, fails⟩
      · cases rewritten : rewriteFrame frame with
        | none => rw [resolveFrames_stuck library rewritten]
        | some message =>
            rw [resolveFrames_none library rewritten]
            rcases List.mem_cons.mp member with rfl | later
            · rw [fails] at rewritten
              cases rewritten
            · exact ih ⟨other, later, program, fails⟩

/-! ## Searches in the frames -/

/-- All searches in the frames of a trace find their character, whatever
`addr2line` answers, exactly when none of the frames that `stacktrace` looks at
lacks an object. -/
theorem searchesSucceed_iff (produced : ∀ message ∈ messages, IsFrame message) :
    (∀ addr2line, (stacktrace addr2line self messages).2 ≠ .searchFailed) ↔
      ∀ frame ∈ tracedFrames messages, ∀ address, frame ≠ bareFrame address := by
  have traced : ∀ frame ∈ tracedFrames messages, IsFrame frame := fun frame member =>
    produced frame (List.mem_of_mem_take (List.mem_of_mem_drop member))
  constructor
  · rintro succeeds frame member address rfl
    apply succeeds fun _ => none
    exact searchFailed_of_exists
      ⟨_, member, not_isLibrary_bare address, rewriteFrame_bare address⟩
  · intro objects addr2line failed
    obtain ⟨frame, member, _, stuck⟩ := exists_of_searchFailed failed
    obtain ⟨address, same⟩ := (traced frame member).rewriteFrame_eq_none_iff.mp stuck
    exact objects frame member address same

/-- The path of an executable. -/
def demoPath : ProcessPath := ⟨"/opt/demo".toList, 5, by decide, by decide⟩

/-- A frame of the executable. -/
def demoFrame : List Char := namedFrame "demo".toList "main".toList "+0x1a".toList "0x40101a".toList

/-- A frame of a shared library of its own. -/
def libraryFrame : List Char :=
  namedFrame "./libdemo.so".toList "run".toList "+0x2b".toList "0x7f002b".toList

theorem searchesSucceed_iff_sample :
    (∀ message ∈ List.replicate 5 demoFrame, IsFrame message) ∧
      ((∀ addr2line, (stacktrace addr2line demoPath (List.replicate 5 demoFrame)).2 ≠
          .searchFailed) ↔
        ∀ frame ∈ tracedFrames (List.replicate 5 demoFrame), ∀ address,
          frame ≠ bareFrame address) := by
  have produced : ∀ message ∈ List.replicate 5 demoFrame, IsFrame message := by
    intro message member
    rw [List.eq_of_mem_replicate member]
    exact .named ..
  exact ⟨produced, searchesSucceed_iff produced⟩

/-- A return address on the stack that lies in no object. -/
theorem not_searchesSucceed :
    ¬∀ addr2line self messages, (∀ message ∈ messages, IsFrame message) →
      (stacktrace addr2line self messages).2 ≠ .searchFailed := by
  intro claim
  have produced : ∀ message ∈ List.replicate 5 (bareFrame 64), IsFrame message := by
    intro message member
    rw [List.eq_of_mem_replicate member]
    exact .bare 64
  apply claim (fun _ => none) demoPath _ produced
  apply searchFailed_of_exists
  exact ⟨bareFrame 64, List.mem_singleton_self _, not_isLibrary_bare 64, rewriteFrame_bare 64⟩

/-! ## Frames and the path -/

namespace ProcessPath

@[simp]
theorem baseName_cut (self : ProcessPath) : self.cut.baseName = [] := by
  rw [baseName, cut, List.drop_eq_nil_iff, List.length_take]
  exact Nat.min_le_left _ _

@[simp]
theorem directory_cut (self : ProcessPath) : self.cut.directory = self.directory := by
  rw [directory, cut, directory, List.take_take, Nat.min_self]

theorem cut_cut (self : ProcessPath) : self.cut.cut = self.cut := by
  simp only [cut, List.take_take, Nat.min_self]

theorem directory_ne_nil (self : ProcessPath) : self.directory ≠ [] := by
  have length : self.directory.length = self.base := by
    rw [directory, List.length_take]
    exact Nat.min_eq_left self.inside
  intro empty
  rw [empty] at length
  exact Nat.ne_of_gt self.positive length.symm

/-- The frame starts with the base name once it has been rewritten. -/
def Matches (self : ProcessPath) (frame : List Char) : Prop :=
  ∃ message, rewriteFrame frame = some message ∧ startsWith message self.baseName

/-- The path of the loop when a frame has matched, or none has. -/
def whenMatched (self : ProcessPath) (matched : Bool) : ProcessPath :=
  if matched then self.cut else self

theorem startsWith_whenMatched {matched : Bool} :
    startsWith message (self.whenMatched matched).baseName ↔
      matched = true ∨ startsWith message self.baseName := by
  cases matched with
  | false => simp [whenMatched]
  | true => simp [whenMatched, startsWith]

theorem directory_whenMatched (matched : Bool) :
    (self.whenMatched matched).directory = self.directory := by
  cases matched with
  | false => rfl
  | true => exact self.directory_cut

theorem next_whenMatched {matched : Bool} : (self.whenMatched matched).next message =
    self.whenMatched (matched || decide (startsWith message self.baseName)) := by
  unfold next
  cases matched with
  | false => by_cases starts : startsWith message self.baseName <;> simp [whenMatched, starts]
  | true => simp [whenMatched, startsWith, cut_cut]

end ProcessPath

/-- The command for a frame is made of the frame and the path of the process
alone, with the directory in front when the frame starts with the base name. -/
structure Resolved.Alone (self : ProcessPath) (resolved : Resolved) : Prop where
  message : rewriteFrame resolved.frame = some resolved.command.message
  directory : resolved.command.directory =
    if startsWith resolved.frame self.baseName then self.directory else []

/-- The frames that a command is built for, up to the first one that cannot be
rewritten. -/
def resolvable (frames : List (List Char)) : List (List Char) :=
  (frames.filter fun frame => ¬IsLibrary frame).takeWhile fun frame => (rewriteFrame frame).isSome

theorem resolvable_library (library : IsLibrary frame) :
    resolvable (frame :: frames) = resolvable frames := by
  simp [resolvable, library]

theorem resolvable_stuck (program : ¬IsLibrary frame) (stuck : rewriteFrame frame = none) :
    resolvable (frame :: frames) = [] := by
  simp [resolvable, program, stuck]

theorem resolvable_cons (program : ¬IsLibrary frame)
    (rewritten : rewriteFrame frame = some message) :
    resolvable (frame :: frames) = frame :: resolvable frames := by
  simp [resolvable, program, rewritten]

/-- Every frame starts with the base name when it, or one in front of it,
matches. -/
def MatchesAgree (self : ProcessPath) (matched : Bool) (frames : List (List Char)) : Prop :=
  ∀ before frame after, frames = before ++ frame :: after →
    ((matched = true ∨ ∃ earlier ∈ before ++ [frame], self.Matches earlier) ↔
      startsWith frame self.baseName)

theorem matchesAgree_nil (matched : Bool) : MatchesAgree self matched [] := by
  intro before frame after split
  exact absurd split.symm (by simp)

theorem matchesAgree_cons {matched : Bool} (rewritten : rewriteFrame frame = some message) :
    MatchesAgree self matched (frame :: frames) ↔
      ((matched = true ∨ startsWith message self.baseName) ↔ startsWith frame self.baseName) ∧
        MatchesAgree self (matched || decide (startsWith message self.baseName)) frames := by
  have own : self.Matches frame ↔ startsWith message self.baseName := by
    constructor
    · rintro ⟨other, again, starts⟩
      rw [rewritten, Option.some.injEq] at again
      exact again ▸ starts
    · intro starts
      exact ⟨message, rewritten, starts⟩
  have widen : ∀ (before : List (List Char)) (last : List Char),
      ((matched || decide (startsWith message self.baseName)) = true ∨
          ∃ earlier ∈ before ++ [last], self.Matches earlier) ↔
        (matched = true ∨ ∃ earlier ∈ frame :: before ++ [last], self.Matches earlier) := by
    intro before last
    simp only [List.cons_append, List.exists_mem_cons_iff, own, Bool.or_eq_true, decide_eq_true_eq,
      or_assoc]
  constructor
  · intro agree
    constructor
    · simpa [own] using agree [] frame frames rfl
    · intro before last after split
      rw [widen]
      exact agree (frame :: before) last after (by rw [split, List.cons_append])
  · rintro ⟨first, rest⟩ before last after split
    cases before with
    | nil =>
        obtain ⟨rfl, rfl⟩ := List.cons.inj split
        simpa [own] using first
    | cons other before =>
        obtain ⟨rfl, later⟩ := List.cons.inj split
        rw [← widen]
        exact rest before last after later

/-- A command is built alone exactly when the match of the loop is the one of
the frame. -/
theorem alone_iff {matched : Bool} {shown : Option (List Char)}
    (rewritten : rewriteFrame frame = some message) :
    Resolved.Alone self ⟨frame, (self.whenMatched matched).command message, shown⟩ ↔
      ((matched = true ∨ startsWith message self.baseName) ↔ startsWith frame self.baseName) := by
  have nonempty := self.directory_ne_nil
  rw [← ProcessPath.startsWith_whenMatched]
  constructor
  · rintro ⟨_, same⟩
    rw [ProcessPath.command, ProcessPath.directory_whenMatched] at same
    simp only at same
    by_cases inProgram : startsWith message (self.whenMatched matched).baseName
    · by_cases starts : startsWith frame self.baseName
      · exact ⟨fun _ => starts, fun _ => inProgram⟩
      · rw [if_pos inProgram, if_neg starts] at same
        exact absurd same nonempty
    · by_cases starts : startsWith frame self.baseName
      · rw [if_neg inProgram, if_pos starts] at same
        exact absurd same.symm nonempty
      · exact ⟨fun yes => absurd yes inProgram, fun yes => absurd yes starts⟩
  · intro agree
    refine ⟨rewritten, ?_⟩
    rw [ProcessPath.command, ProcessPath.directory_whenMatched]
    simp only [agree]

/-- The commands of a trace in which none can be run. -/
theorem all_alone_iff (matched : Bool) :
    (∀ resolved ∈ (resolveFrames (fun _ => none) (self.whenMatched matched) frames).1,
        resolved.Alone self) ↔ MatchesAgree self matched (resolvable frames) := by
  induction frames generalizing matched with
  | nil => exact ⟨fun _ => matchesAgree_nil matched, fun _ _ none => absurd none List.not_mem_nil⟩
  | cons frame rest ih =>
      by_cases library : IsLibrary frame
      · rw [resolveFrames_library library, resolvable_library library]
        exact ih matched
      · cases rewritten : rewriteFrame frame with
        | none =>
            rw [resolveFrames_stuck library rewritten, resolvable_stuck library rewritten]
            exact ⟨fun _ => matchesAgree_nil matched, fun _ _ none => absurd none List.not_mem_nil⟩
        | some message =>
            rw [resolveFrames_none library rewritten, resolvable_cons library rewritten,
              matchesAgree_cons rewritten, List.forall_mem_cons, alone_iff rewritten,
              ProcessPath.next_whenMatched, ih]

/-- Answers of `addr2line` only end a trace earlier. -/
theorem exists_of_mem_resolveFrames (member : resolved ∈ (resolveFrames addr2line now frames).1) :
    ∃ other ∈ (resolveFrames (fun _ => none) now frames).1,
      other.frame = resolved.frame ∧ other.command = resolved.command := by
  induction frames generalizing now with
  | nil => exact absurd member List.not_mem_nil
  | cons frame rest ih =>
      by_cases library : IsLibrary frame
      · rw [resolveFrames_library library] at member ⊢
        exact ih member
      · cases rewritten : rewriteFrame frame with
        | none =>
            rw [resolveFrames_stuck library rewritten] at member
            exact absurd member List.not_mem_nil
        | some message =>
            rw [resolveFrames_none library rewritten]
            obtain ⟨shown, ends | goesOn⟩ := resolveFrames_some library rewritten
            · rw [ends, List.mem_singleton] at member
              subst member
              exact ⟨_, List.mem_cons_self, rfl, rfl⟩
            · rw [goesOn] at member
              rcases List.mem_cons.mp member with rfl | later
              · exact ⟨_, List.mem_cons_self, rfl, rfl⟩
              · obtain ⟨other, found, same⟩ := ih later
                exact ⟨other, List.mem_cons_of_mem _ found, same⟩

/-- Whatever `addr2line` answers, every command of a trace is built from its
own frame and the path alone, exactly when a frame starts with the base name if
and only if it, or a frame in front of it, does so once it has been
rewritten. -/
theorem resolvedAlone_iff (self : ProcessPath) (messages : List (List Char)) :
    (∀ addr2line, ∀ resolved ∈ (stacktrace addr2line self messages).1, resolved.Alone self) ↔
      ∀ before frame after, resolvable (tracedFrames messages) = before ++ frame :: after →
        ((∃ earlier ∈ before ++ [frame], self.Matches earlier) ↔
          startsWith frame self.baseName) := by
  have unrun : (∀ resolved ∈ (stacktrace (fun _ => none) self messages).1, resolved.Alone self) ↔
      MatchesAgree self false (resolvable (tracedFrames messages)) :=
    all_alone_iff false
  simp only [MatchesAgree, Bool.false_eq_true, false_or] at unrun
  rw [← unrun]
  constructor
  · intro alone
    exact alone _
  · intro alone addr2line resolved member
    obtain ⟨other, found, frameEq, commandEq⟩ := exists_of_mem_resolveFrames member
    obtain ⟨messageEq, directoryEq⟩ := alone other found
    rw [frameEq, commandEq] at messageEq directoryEq
    exact ⟨messageEq, directoryEq⟩

/-- A frame of a shared library behind one of the program. -/
theorem not_resolvedAlone :
    ¬∀ addr2line self messages, ∀ resolved ∈ (stacktrace addr2line self messages).1,
      resolved.Alone self := by
  intro claim
  have traced : tracedFrames [demoFrame, demoFrame, demoFrame, demoFrame, libraryFrame, demoFrame] =
      [demoFrame, libraryFrame] := rfl
  have alone := claim (fun _ => none) demoPath
    [demoFrame, demoFrame, demoFrame, demoFrame, libraryFrame, demoFrame]
  rw [stacktrace, traced] at alone
  have agree : MatchesAgree demoPath false (resolvable [demoFrame, libraryFrame]) :=
    (all_alone_iff false).mp alone
  have reached : resolvable [demoFrame, libraryFrame] = [demoFrame] ++ libraryFrame :: [] := by
    decide +kernel
  have starts := (agree _ _ _ reached).mp (Or.inr ⟨demoFrame, List.mem_cons_self, _, rfl,
    by decide +kernel⟩)
  exact absurd starts (by decide +kernel)

end VgcMalloc
