import AdbShare.Shell
import AdbShare.TextOffsets

/-! The command lines that the daemon and the file browser hand to the shell of a device. -/
namespace AdbShare.ShellCommands

open Shell TextOffsets List Arg

/-- A fixed part of a line. -/
@[irreducible] def lit (s : String) : Text := s.toList

@[simp] theorem lit_eq (s : String) : lit s = s.toList := by
  unfold lit
  rfl

def SHELL_ALLOWLIST : List String := ["pm","am","svc","settings","wm","getprop","dumpsys","input","monkey"]

def INSTALL_STAGE : String := "/data/local/tmp/adbshare_install_stage.apk"

def isSafeShellArg (arg : Text) : Bool :=
  !arg.isEmpty && decide (byteLen arg ≤ 512) &&
    arg.all fun c => c.isAlphanum || "-_./:=@,+%".toList.contains c

/-- A list of arguments as Rust's `Debug` shows it. -/
def debugArgv (argv : List String) : String :=
  "["++", ".intercalate (argv.map fun a => "\""++a++"\"")++"]"

/-- The commands of which only some subcommands are allowed. -/
def subcommands : String → Option (List String)
  | "settings" => some ["get","put"]
  | "wm" => some ["size","density"]
  | "am" => some ["force-stop"]
  | "pm" => some ["clear","grant","revoke","list","path"]
  | "input" => some ["tap","text","keyevent","swipe"]
  | _ => none

def validateShellArgv (argv : List Text) : Except String Unit :=
  match argv.map String.ofList with
  | [] => .error "empty argv"
  | head::args =>
    if ¬SHELL_ALLOWLIST.contains head then .error ("command not allowed: "++head)
    else if ¬argv.all isSafeShellArg then .error "argument contains unsafe characters"
    else
      let sub := args.getD 0 ""
      if head = "getprop" ∨ head = "dumpsys" then .ok ()
      else if head = "svc" then
        if ["wifi","data","bluetooth"].contains sub && ["enable","disable"].contains (args.getD 1 "") then .ok ()
        else .error ("disallowed svc command: "++debugArgv (head::args))
      else if head = "monkey" then
        if args.length = 5 ∧ args[0]? = some "-p" ∧ args[2]? = some "-c" ∧
            args[3]? = some "android.intent.category.LAUNCHER" ∧ args[4]? = some "1" then .ok ()
        else .error "disallowed monkey invocation"
      else
        match subcommands head with
        | some allowed => if allowed.contains sub then .ok () else .error ("disallowed "++head++" subcommand: "++sub)
        | none => .error ("command not allowed: "++head)

/-- A segment of a package name: a letter, then letters, digits and underscores. -/
def isSegment : Text → Bool
  | [] => false
  | first::chars => first.isAlpha && chars.all fun c => c.isAlphanum || c == '_'

def isPackageName (package : Text) : Bool :=
  if package.isEmpty || decide (byteLen package > 224) then false
  else (package.splitOn '.').all isSegment

inductive PackageAction
  | disable | enable | uninstall | restore
  deriving DecidableEq, Repr

structure PackageRequest where
  package : Text
  action : PackageAction

def decimal (n : ℕ) : Text := Nat.toDigits 10 n

def PackageAction.command (action : PackageAction) (package : Text) (user : UInt16) : Text :=
  match action with
  | .disable => lit "pm disable-user --user "++(decimal user.toNat++(lit " "++(QUOTE::(package++[QUOTE]))))
  | .enable => lit "pm enable --user "++(decimal user.toNat++(lit " "++(QUOTE::(package++[QUOTE]))))
  | .uninstall => lit "pm uninstall -k --user "++(decimal user.toNat++(lit " "++(QUOTE::(package++[QUOTE]))))
  | .restore => lit "cmd package install-existing "++(QUOTE::(package++[QUOTE]))

/-- The copy of `perform_install` into the staging area. -/
def stageCommand (path : Text) : Text :=
  lit "cp "++(QUOTE::(escape path++(QUOTE::(lit " "++lit INSTALL_STAGE))))

def shellQuote (value : Text) : Text := quote value

/-- The line of `open_device_terminal`. -/
def cdCommand (path : Text) : Text := lit "cd "++(shellQuote path++lit " && exec $SHELL -l")

/-- The words of a package command. -/
def PackageAction.argv (action : PackageAction) (package : Text) (user : UInt16) : List Text :=
  match action with
  | .disable => [lit "pm",lit "disable-user",lit "--user",decimal user.toNat,package]
  | .enable => [lit "pm",lit "enable",lit "--user",decimal user.toNat,package]
  | .uninstall => [lit "pm",lit "uninstall",lit "-k",lit "--user",decimal user.toNat,package]
  | .restore => [lit "cmd",lit "package",lit "install-existing",package]

/-- The word that the shell expands in the line of `open_device_terminal`. -/
def shellWord : Word := [.active '$',.plain 'S',.plain 'H',.plain 'E',.plain 'L',.plain 'L']

variable {c x : Char} {arg head segment package : Text} {argv texts : List Text}

theorem isBare_of_isAlphanum (h : c.isAlphanum) : isBare c := by
  have hne : ∀ d ∈ [QUOTE,DOUBLE_QUOTE,BACKSLASH,BACKQUOTE,'$','#',' ','\t','&','|',';','<','>','(',')','\n',
      '*','?','[','~','{'], c ≠ d := by
    intro d hd heq
    subst heq
    revert h
    fin_cases hd <;> decide
  simp [isBare,isOrdinary,isBlank,isOperator,hne]

theorem isBare_of_safe (h : (c.isAlphanum || "-_./:=@,+%".toList.contains c)) : isBare c := by
  obtain h | h := Bool.or_eq_true_iff.mp h
  · exact isBare_of_isAlphanum h
  have hmem : c ∈ "-_./:=@,+%".toList := contains_iff_mem.mp h
  have hlist : "-_./:=@,+%".toList = ['-','_','.','/',':','=','@',',','+','%'] := rfl
  fin_cases hmem <;> decide

theorem sound_of_isSafeShellArg (h : isSafeShellArg arg) : (bare arg).isSound := by
  rw [isSafeShellArg,Bool.and_eq_true,Bool.and_eq_true] at h
  refine Bool.and_eq_true_iff.mpr ⟨h.1.1,all_eq_true.mpr ?_⟩
  exact fun c hc => isBare_of_safe (all_eq_true.mp h.2 c hc)

/-- What the validation has made sure of. -/
theorem of_validateShellArgv (h : validateShellArgv argv = .ok ()) :
    ∃ head args, argv = head::args ∧ String.ofList head ∈ SHELL_ALLOWLIST ∧ ∀ arg ∈ argv, isSafeShellArg arg := by
  cases argv with
  | nil => cases h
  | cons head args =>
    rw [validateShellArgv,map_cons] at h
    dsimp only at h
    by_cases hhead : SHELL_ALLOWLIST.contains (String.ofList head)
    · rw [if_neg (not_not.mpr hhead)] at h
      by_cases hsafe : (head::args).all isSafeShellArg
      · exact ⟨head,args,rfl,contains_iff_mem.mp hhead,all_eq_true.mp hsafe⟩
      · rw [if_pos hsafe] at h
        cases h
    · rw [if_pos hhead] at h
      cases h

theorem not_special_of_allowed (h : String.ofList head ∈ SHELL_ALLOWLIST) : isSpecial (head.map .plain) = false := by
  have hmem : head ∈ SHELL_ALLOWLIST.map String.toList := by
    refine mem_map.mpr ⟨_,h,?_⟩
    exact String.toList_ofList
  have hlist : SHELL_ALLOWLIST.map String.toList = [['p','m'],['a','m'],['s','v','c'],['s','e','t','t','i','n','g','s'],['w','m'],
      ['g','e','t','p','r','o','p'],['d','u','m','p','s','y','s'],['i','n','p','u','t'],['m','o','n','k','e','y']] := rfl
  fin_cases hmem <;> decide

theorem sound_decimal (n : ℕ) : (bare (decimal n)).isSound := by
  have hne : decimal n ≠ [] := Nat.toDigits_ne_nil
  refine Bool.and_eq_true_iff.mpr ⟨by simpa using hne,all_eq_true.mpr ?_⟩
  intro c hc
  have hdigit : c.isDigit := Nat.isDigit_of_mem_toDigits (by decide) (by decide) hc
  exact isBare_of_isAlphanum (by simp [Char.isAlphanum,hdigit])

theorem mem_intercalate (h : c ∈ [x].intercalate texts) : c = x ∨ ∃ text ∈ texts, c ∈ text := by
  induction texts with
  | nil => cases h
  | cons text texts ih =>
    cases texts with
    | nil => exact .inr ⟨text,mem_singleton_self text,by simpa using h⟩
    | cons text' texts =>
      have hcons : [x].intercalate (text::text'::texts) = text++x::[x].intercalate (text'::texts) := by
        simp [List.intercalate]
      rw [hcons,mem_append,mem_cons] at h
      obtain h | h | h := h
      · exact .inr ⟨text,mem_cons_self,h⟩
      · exact .inl h
      · exact (ih h).imp_right fun ⟨t,ht,hc⟩ => ⟨t,mem_cons_of_mem text ht,hc⟩

theorem quote_not_mem_segment (h : isSegment segment) : QUOTE ∉ segment := by
  cases segment with
  | nil => exact not_mem_nil
  | cons first chars =>
    rw [isSegment,Bool.and_eq_true] at h
    intro hq
    obtain rfl | hq := mem_cons.mp hq
    · exact absurd h.1 (by decide)
    · exact absurd (all_eq_true.mp h.2 _ hq) (by decide)

theorem quote_not_mem (h : isPackageName package) : QUOTE ∉ package := by
  rw [isPackageName] at h
  split_ifs at h
  intro hq
  have hjoin : ['.'].intercalate (package.splitOn '.') = package := intercalate_splitOn '.'
  rw [← hjoin] at hq
  obtain hdot | ⟨segment,hseg,hq⟩ := mem_intercalate hq
  · exact absurd hdot (by decide)
  · exact quote_not_mem_segment (all_eq_true.mp h segment hseg) hq

section

variable (env : Word → List Text)

theorem read_shellArgv (h : validateShellArgv argv = .ok ()) :
    Shell.read env ([' '].intercalate argv) = some [(argv,[])] := by
  obtain ⟨head,args,rfl,hhead,hsafe⟩ := of_validateShellArgv h
  have hspelling : ((head::args).map bare).map spelling = head::args := by
    rw [map_map]
    exact map_id _
  have hvalue : ((head::args).map bare).map value = head::args := by
    rw [map_map]
    exact map_id _
  have hread := @read_args env ((head::args).map bare) ?_ (cons_ne_nil _ _) ?_
  · rw [hspelling,hvalue] at hread
    exact hread
  · intro a ha
    obtain ⟨arg,harg,rfl⟩ := mem_map.mp ha
    exact sound_of_isSafeShellArg (hsafe arg harg)
  · rintro a ⟨⟩
    exact not_special_of_allowed hhead

/-- The words of a package command as they stand in the line. -/
def PackageAction.args (action : PackageAction) (package : Text) (user : UInt16) : List Arg :=
  match action with
  | .disable => [.bare (lit "pm"),.bare (lit "disable-user"),.bare (lit "--user"),.bare (decimal user.toNat),.quoted package]
  | .enable => [.bare (lit "pm"),.bare (lit "enable"),.bare (lit "--user"),.bare (decimal user.toNat),.quoted package]
  | .uninstall =>
    [.bare (lit "pm"),.bare (lit "uninstall"),.bare (lit "-k"),.bare (lit "--user"),.bare (decimal user.toNat),.quoted package]
  | .restore => [.bare (lit "cmd"),.bare (lit "package"),.bare (lit "install-existing"),.quoted package]

theorem not_special_names : isSpecial ("pm".toList.map .plain) = false ∧ isSpecial ("cmd".toList.map .plain) = false ∧
    isSpecial ("cp".toList.map .plain) = false ∧ isSpecial ("cd".toList.map .plain) = false ∧
    isSpecial ("exec".toList.map .plain) = false := by
  decide

theorem PackageAction.command_eq (h : isPackageName package) (action : PackageAction) (user : UInt16) :
    action.command package user = [' '].intercalate ((action.args package user).map spelling) := by
  have hescape := escape_eq_self (quote_not_mem h)
  cases action <;>
  simp [PackageAction.command,PackageAction.args,spelling,quote,hescape]

theorem PackageAction.args_sound (action : PackageAction) (package : Text) (user : UInt16) :
    ∀ a ∈ action.args package user, a.isSound := by
  have hdecimal := sound_decimal user.toNat
  have hquoted : (quoted package).isSound := rfl
  cases action <;>
  simp only [PackageAction.args,forall_mem_cons,not_mem_nil,false_imp_iff,implies_true,and_true,hdecimal,hquoted,
    lit_eq] <;>
  decide

theorem read_packageCommand (h : isPackageName package) (action : PackageAction) (user : UInt16) :
    Shell.read env (action.command package user) = some [(action.argv package user,[])] := by
  have hvalue : (action.args package user).map value = action.argv package user := by
    cases action <;> rfl
  rw [action.command_eq h,← hvalue]
  refine read_args env (action.args_sound package user) ?_ ?_
  · cases action <;> exact cons_ne_nil _ _
  · obtain ⟨hpm,hcmd,-⟩ := not_special_names
    cases action <;> rintro a ⟨⟩ <;> simpa only [lit_eq]

theorem read_stageCommand (path : Text) :
    Shell.read env (stageCommand path) = some [(["cp".toList,path,INSTALL_STAGE.toList],[])] := by
  have hline : stageCommand path =
      [' '].intercalate ([bare "cp".toList,.quoted path,.bare INSTALL_STAGE.toList].map spelling) := by
    simp [stageCommand,spelling,quote]
  rw [hline]
  refine read_args env ?_ (cons_ne_nil _ _) ?_
  · simp only [forall_mem_cons,not_mem_nil,false_imp_iff,implies_true,and_true,isSound]
    decide
  · rintro a ⟨⟩
    exact not_special_names.2.2.1

theorem lex_cdCommand (path : Text) : lex .plain none (cdCommand path) =
    some [.word ("cd".toList.map .plain),.word (path.map .quoted),.op "&&".toList,.word ("exec".toList.map .plain),
      .word shellWord,.word ("-l".toList.map .plain)] := by
  have htail : lex .plain none "&& exec $SHELL -l".toList =
      some [.op "&&".toList,.word ("exec".toList.map .plain),.word shellWord,.word ("-l".toList.map .plain)] := by
    decide
  have hline : cdCommand path = "cd".toList++ ' '::(quote path++ ' '::"&& exec $SHELL -l".toList) := by
    simp [cdCommand,shellQuote]
  have hcd : Spells "cd".toList ("cd".toList.map .plain) := spells_bare (by decide) (by decide)
  rw [hline,lex_word hcd,lex_word (spells_quote path)]
  rfl

theorem read_cdCommand (path : Text) : Shell.read env (cdCommand path) =
    some [(["cd".toList,path],"&&".toList),("exec".toList::(env shellWord++["-l".toList]),[])] := by
  obtain ⟨-,-,-,hcd,hexec⟩ := not_special_names
  have hsplit : split [.word ("cd".toList.map .plain),.word (path.map .quoted),.op "&&".toList,.word ("exec".toList.map .plain),
      .word shellWord,.word ("-l".toList.map .plain)] [] = some [(["cd".toList.map .plain,path.map .quoted],"&&".toList),
        (["exec".toList.map .plain,shellWord,"-l".toList.map .plain],[])] := rfl
  have hshell : fields env shellWord = env shellWord := rfl
  have hfields : ∀ text : Text, text.all isBare → fields env (text.map .plain) = [text] := fun _ => fields_bare env
  rw [Shell.read,lex_cdCommand,Option.bind_eq_bind,Option.bind_some,hsplit,Option.bind_eq_bind,Option.bind_some]
  simp only [commands,simpleCommand,hcd,hexec,flatMap_cons,flatMap_nil,fields_quoted,hshell]
  rfl

/-- Every command line is read as the words that were put into it, whatever the environment: what
the caller chooses adds no word, no expansion and no command. -/
theorem commands_read_as_meant :
    (∀ argv, validateShellArgv argv = .ok () → Shell.read env ([' '].intercalate argv) = some [(argv,[])]) ∧
    (∀ package, isPackageName package = true → ∀ (action : PackageAction) (user : UInt16),
      Shell.read env (action.command package user) = some [(action.argv package user,[])] ∧
        (action.argv package user).getLast? = some package) ∧
    (∀ path, Shell.read env (stageCommand path) = some [(["cp".toList,path,INSTALL_STAGE.toList],[])]) ∧
    ∀ path, Shell.read env (cdCommand path) =
      some [(["cd".toList,path],"&&".toList),("exec".toList::(env shellWord++["-l".toList]),[])] := by
  refine ⟨fun _ h => read_shellArgv env h,?_,read_stageCommand env,read_cdCommand env⟩
  intro package h action user
  refine ⟨read_packageCommand env h action user,?_⟩
  cases action <;> rfl

end

/-- A switch with its words, and an app that is switched off. -/
theorem commands_read_as_meant_samples :
    Shell.read (fun _ => []) "svc wifi enable".toList = some [(["svc".toList,"wifi".toList,"enable".toList],[])] ∧
      Shell.read (fun _ => []) (PackageAction.disable.command "a.b".toList 10) =
        some [(PackageAction.disable.argv "a.b".toList 10,[])] ∧
        (PackageAction.disable.argv "a.b".toList 10).getLast? = some "a.b".toList :=
  ⟨(commands_read_as_meant fun _ => []).1 ["svc".toList,"wifi".toList,"enable".toList] (by decide),
    (commands_read_as_meant fun _ => []).2.1 "a.b".toList (by decide) .disable 10⟩

section

def MAX_OUTPUT : ℕ := 200000

def TRUNCATED : Text := "\n…(truncated)".toList

/-- The output as `run_shell_json` returns it; none where `truncate` panics. -/
def capOutput (text : Text) : Option Text :=
  if byteLen text > MAX_OUTPUT then (cutAt text MAX_OUTPUT).map fun p => p.1++TRUNCATED else some text

/-- `run_shell_json` on what serde_json makes of the arguments and on what adb answers, with the output as text. -/
def runShellJson (serial : Text) (argv : Except String (List Text)) (adb : List Text → Except String Text) :
    Option (Except String Text) :=
  match argv with
  | .error e => some (.error ("argv is not a JSON array: "++e))
  | .ok argv =>
    match validateShellArgv argv with
    | .error e => some (.error e)
    | .ok _ =>
      match adb ("-s".toList::serial::"shell".toList::argv) with
      | .error e => some (.error e)
      | .ok text => (capOutput text).map .ok

/-- The whole output if it is short enough, otherwise a part of it that ends before some character and the mark. -/
def Shows (text shown : Text) : Prop :=
  if byteLen text ≤ MAX_OUTPUT then shown = text else ∃ a b, text = a++b ∧ shown = a++TRUNCATED

/-- The output is returned exactly if no character lies across the limit. -/
theorem runShellJson_shows_iff {serial : Text} {argv : List Text} {adb : List Text → Except String Text} {text : Text}
    (hargv : validateShellArgv argv = .ok ()) (hadb : adb ("-s".toList::serial::"shell".toList::argv) = .ok text) :
    (∃ shown, runShellJson serial (.ok argv) adb = some (.ok shown) ∧ Shows text shown) ↔
      byteLen text ≤ MAX_OUTPUT ∨ isBoundary text MAX_OUTPUT = true := by
  simp only [runShellJson,hargv,hadb,Shows,capOutput,isBoundary]
  by_cases hshort : byteLen text ≤ MAX_OUTPUT
  · simp [hshort]
  · cases hcut : cutAt text MAX_OUTPUT with
    | none => simp [hshort]
    | some p => simpa [hshort,not_le.mp hshort] using ⟨p.2,(cutAt_eq_some_iff.mp hcut).1⟩

theorem runShellJson_shows_short :
    ∃ shown, runShellJson ['p'] (.ok [['w','m'],['s','i','z','e']]) (fun _ => .ok ['4']) = some (.ok shown) ∧
      Shows ['4'] shown :=
  (runShellJson_shows_iff rfl rfl).mpr (.inl (by decide))

variable {n : ℕ}

theorem capOutput_replicate (hn : n+1 = MAX_OUTPUT) : capOutput (replicate n 'a'++['ä']) = none := by
  have hcut : ∀ n, cutAt (replicate n 'a'++['ä']) (n+1) = none := by
    intro n
    induction n with
    | zero => rfl
    | succ n ih => simpa [replicate_succ,cutAt,show 'a'.utf8Size = 1 from rfl] using ih
  have hlong : byteLen (replicate n 'a'++['ä']) > MAX_OUTPUT := by
    simp [byteLen,← hn,show 'a'.utf8Size = 1 from rfl,show 'ä'.utf8Size = 2 from rfl]
  rw [capOutput,if_pos hlong,← hn,hcut,Option.map_none]

/-- A letter of two bytes lies across the limit. -/
theorem long_output_panics :
    runShellJson ['p'] (.ok [['w','m'],['s','i','z','e']]) (fun _ => .ok (replicate 199999 'a'++['ä'])) = none := by
  have hargv : validateShellArgv [['w','m'],['s','i','z','e']] = .ok () := rfl
  simp only [runShellJson,hargv]
  rw [capOutput_replicate rfl,Option.map_none]

end

end AdbShare.ShellCommands
