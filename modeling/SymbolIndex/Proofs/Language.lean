import SymbolIndex.Language
import SymbolIndex.Part

/-!
# The language that compile arguments ask for

Arguments that follow others are scanned as they are alone, unless the others end on a
`-x` that still awaits a name. Macros and include paths ask for no language, and none of
them is the name of one, so that they change nothing even after such a `-x`.
-/

namespace SymbolIndex
namespace Language

/-- Whether the scan of some arguments ends on a `-x` without a name after it. -/
def awaitsName : List String -> Bool
  | [] => false
  | argument :: rest =>
      if argument = "-x" then
        match rest with
        | [] => true
        | _ :: rest => awaitsName rest
      else awaitsName rest

/-- The language that an argument asks for by itself. -/
def request? (argument : String) : Option Language :=
  (match Text.stripFront "--language=" argument with
    | some name => some name
    | none => Text.stripFront "-x" argument).bind ofName?

variable {found : Option Language} {argument name : String} {rest a b arguments : List String}

theorem scan_flag_nil : scan found ["-x"] = found := by
  rw [scan, if_pos rfl]

theorem scan_flag_cons :
    scan found ("-x" :: name :: rest) = scan ((ofName? name).or found) rest := by
  rw [scan, if_pos rfl]

theorem scan_cons (h : argument ≠ "-x") :
    scan found (argument :: rest) = scan ((request? argument).or found) rest := by
  rw [scan.eq_def]
  exact if_neg h

theorem awaitsName_cons (h : argument ≠ "-x") :
    awaitsName (argument :: rest) = awaitsName rest := by
  rw [awaitsName.eq_def]
  exact if_neg h

theorem scan_eq_or (found : Option Language) (arguments : List String) :
    scan found arguments = (scan none arguments).or found := by
  induction arguments using awaitsName.induct generalizing found with
  | case1 => rfl
  | case2 => rw [scan_flag_nil, scan_flag_nil, Option.none_or]
  | case3 name rest ih =>
      rw [scan_flag_cons, scan_flag_cons, ih, ih ((ofName? name).or none), Option.or_none,
        Option.or_assoc]
  | case4 argument rest hflag ih =>
      rw [scan_cons hflag, scan_cons hflag, ih, ih ((request? argument).or none), Option.or_none,
        Option.or_assoc]

theorem scan_append (found : Option Language) (a b : List String) :
    scan found (a ++ b) =
      if awaitsName a then scan (scan found a) ("-x" :: b) else scan (scan found a) b := by
  induction a using awaitsName.induct generalizing found with
  | case1 => rfl
  | case2 => rfl
  | case3 name rest ih =>
      rw [List.cons_append, List.cons_append, scan_flag_cons, scan_flag_cons, ih]
      rfl
  | case4 argument rest hflag ih =>
      rw [List.cons_append, scan_cons hflag, scan_cons hflag, ih,
        awaitsName_cons hflag]

/-!
# Arguments that ask for nothing
-/

/-- An argument that asks for no language, not even where a `-x` awaits a name. -/
structure Mute (argument : String) : Prop where
  flag : argument ≠ "-x"
  request : request? argument = none
  name : ofName? argument = none

theorem scan_of_mute (h : forall argument, argument ∈ arguments -> Mute argument) :
    scan found arguments = found := by
  induction arguments with
  | nil => rfl
  | cons argument rest ih =>
      have hfirst := h argument List.mem_cons_self
      rw [scan_cons hfirst.flag, hfirst.request, Option.none_or]
      exact ih fun other hother => h other (List.mem_cons_of_mem _ hother)

theorem scan_flag_of_mute (h : forall argument, argument ∈ arguments -> Mute argument) :
    scan found ("-x" :: arguments) = found := by
  cases arguments with
  | nil => exact scan_flag_nil
  | cons argument rest =>
      rw [scan_flag_cons, (h argument List.mem_cons_self).name, Option.none_or]
      exact scan_of_mute fun other hother => h other (List.mem_cons_of_mem _ hother)

theorem scan_append_of_mute (h : forall argument, argument ∈ b -> Mute argument) :
    scan found (a ++ b) = scan found a := by
  rw [scan_append]
  split
  · exact scan_flag_of_mute h
  · exact scan_of_mute h

theorem ofName?_of_hyphen {cs : List Char} (h : name.toList = '-' :: cs) : ofName? name = none := by
  rw [ofName?, List.find?_eq_none]
  intro language _ hname
  have hnames : forall known, known ∈ language.names -> known.toList.head? ≠ some '-' := by
    cases language <;> decide
  refine hnames _ (List.contains_iff_mem.mp hname) ?_
  rw [Text.fold, String.toList_ofList, h, List.map_cons, List.head?_cons]
  rfl

theorem mute_of_toList {c : Char} {cs : List Char} (h : argument.toList = '-' :: c :: cs)
    (hhyphen : c ≠ '-') (hx : c ≠ 'x') : Mute argument := by
  constructor
  · rintro rfl
    exact hx (List.cons.inj (List.cons.inj h).2).1.symm
  · have hlong : Text.stripFront "--language=" argument = none := by
      rw [Text.stripFront, h, if_neg]
      simp [List.isPrefixOf, hhyphen.symm]
    have hshort : Text.stripFront "-x" argument = none := by
      rw [Text.stripFront, h, if_neg]
      simp [List.isPrefixOf, hx.symm]
    rw [request?, hlong, hshort]
    rfl
  · exact ofName?_of_hyphen h

theorem mute_argument (m : CompilerMacro) : Mute m.argument := by
  cases m with
  | mk name value =>
      cases value with
      | none =>
          have h : (CompilerMacro.argument ⟨name, none⟩).toList = '-' :: 'D' :: name.toList := by
            simp [CompilerMacro.argument]
          exact mute_of_toList h (by decide) (by decide)
      | some value =>
          have h : (CompilerMacro.argument ⟨name, some value⟩).toList =
              '-' :: 'D' :: (name ++ "=" ++ value).toList := by
            simp [CompilerMacro.argument]
          exact mute_of_toList h (by decide) (by decide)

theorem mute_includePath (path : Path) : Mute ("-I" ++ path.display) := by
  have h : ("-I" ++ path.display).toList = '-' :: 'I' :: path.display.toList := by
    simp
  exact mute_of_toList h (by decide) (by decide)

/-!
# Command lines
-/

/--
Macros and include paths never change the language that the flags of a part ask for. Of two
lists of arguments one after the other the second decides, if it asks for a language and the
first does not end on a `-x` that awaits a name.
-/
theorem last_request_wins :
    (forall p : Part, ofArguments? p.commandLine = ofArguments? p.arguments) ∧
      forall a b : List String, awaitsName a = false ->
        ofArguments? (a ++ b) = (ofArguments? b).or (ofArguments? a) := by
  constructor
  · intro p
    rw [Part.commandLine, List.append_assoc]
    refine scan_append_of_mute ?_
    intro argument hargument
    rcases List.mem_append.mp hargument with hmacro | hpath
    · rcases List.mem_map.mp hmacro with ⟨m, -, rfl⟩
      exact mute_argument m
    · rcases List.mem_map.mp hpath with ⟨path, -, rfl⟩
      exact mute_includePath path
  · intro a b hclosed
    rw [ofArguments?, scan_append, hclosed]
    exact scan_eq_or (ofArguments? a) b

/-- A part whose flags end on an open `-x`: the macro after it is no name of a language. -/
def openPart : Part :=
  ⟨⟨"P"⟩, [⟨[0x2f, 0x61]⟩], ["-xc", "-x"], [⟨"c++", some "rust"⟩], [⟨[0x67, 0x6f]⟩]⟩

theorem request_before_open_flag_wins :
    openPart.commandLine = ["-xc", "-x", "-Dc++=rust", "-Igo"] ∧
      ofArguments? openPart.commandLine = some .c ∧
      awaitsName ["-xc", "-x", "-x"] = false ∧
      ofArguments? (["-xc", "-x", "-x"] ++ ["rust", "-x"]) = some .c ∧
      ofArguments? (["-xc", "-x", "-x"] ++ ["rust", "-x", "go"]) = some .go := by
  have hclosed : awaitsName ["-xc", "-x", "-x"] = false := by decide
  refine ⟨by decide +kernel, ?_, hclosed, ?_, ?_⟩
  · exact (last_request_wins.1 openPart).trans (by decide)
  · exact (last_request_wins.2 _ _ hclosed).trans (by decide)
  · exact (last_request_wins.2 _ _ hclosed).trans (by decide)

end Language
end SymbolIndex
