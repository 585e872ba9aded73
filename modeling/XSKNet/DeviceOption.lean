import XSKNet.CommandStream

/- The way of the --dev option of the client: options_parser copies it into an array, main
   reads that array as a string, names the port with it in its requests, and opens its
   socket on the interface of the port. -/
namespace XSKDeviceOption
open CStrings XSKVeth XSKPorts XSKCommandSocket XSKOwnership XSKStream

abbrev FILE_NAME_SIZE : Nat := 512
abbrev DEV_NAME_SIZE : Nat := 128

/- args.c. -/

structure Options where
  help : Bool
  version : Bool
  useColors : Bool
  fileName : List UInt8
  dev : List UInt8
  fileNameSize : fileName.length = FILE_NAME_SIZE
  devSize : dev.length = DEV_NAME_SIZE

inductive Arg where
  | help
  | version
  | dev (optarg : CString)
  | noColors
  | unknown
  | other (optarg : CString)
  deriving DecidableEq

def terminated (s : CString) : List UInt8 := s.bytes ++ [0]

def standardInput : CString := ⟨ascii "-", by decide⟩
def devStdout : CString := ⟨ascii "/dev/stdout", by decide⟩

theorem strncpy_whole_length {dst : List UInt8} {n : Nat} (src : List UInt8)
    (whole : dst.length = n) : (strncpy dst src n).length = n := by
  unfold strncpy
  simp only [List.length_append, List.length_replicate, List.length_drop, List.length_take]
  omega

def setDefaultOptions (options : Options) : Options where
  help := false
  version := false
  useColors := true
  fileName := strncpy options.fileName (terminated standardInput) FILE_NAME_SIZE
  dev := strncpy options.dev (terminated devStdout) DEV_NAME_SIZE
  fileNameSize := strncpy_whole_length _ options.fileNameSize
  devSize := strncpy_whole_length _ options.devSize

/-- none where the process ends: the two requests for information, and the two errors. -/
def switchOptions (options : Options) : Arg → Option Options
  | .help => none
  | .version => none
  | .dev optarg => some { options with
      dev := strncpy options.dev (terminated optarg) DEV_NAME_SIZE
      devSize := strncpy_whole_length _ options.devSize }
  | .noColors => some { options with useColors := false }
  | .unknown => none
  | .other _ => none

def getFileName (operand : Option CString) (options : Options) : Options :=
  { options with
    fileName := strncpy options.fileName (terminated (operand.getD standardInput)) FILE_NAME_SIZE
    fileNameSize := strncpy_whole_length _ options.fileNameSize }

def optionsParser (args : List Arg) (operand : Option CString) (options : Options) :
    Option Options :=
  (args.foldlM switchOptions (setDefaultOptions options)).map (getFileName operand)

def lastDev : List Arg → Option CString
  | [] => none
  | .dev optarg :: rest => some ((lastDev rest).getD optarg)
  | _ :: rest => lastDev rest

/- client.c. -/

/-- opts.dev as a string. The array is the last field of opts, so a value that fills it is
    read on into the memory behind. -/
def optsDev (options : Options) (behind : List UInt8) : CString :=
  CString.ofArray (options.dev ++ behind)

def mainStarts (dev : CString) : Bool := dev ≠ devStdout

def xskIfname (dev : CString) : CString := CString.snprintf IFNAMSIZ [dev, innerSuffix]

/-- A client that starts has its port created and deleted under exactly this value, each
    command read at once: create_port or delete_port is called, once and with it. And it opens
    its socket on the inner interface of that port. -/
def SamePort (options : Options) (behind : List UInt8) (value : CString) : Prop :=
  mainStarts (optsDev options behind) = true →
    (∀ o d, left (handleClient [(o, (requestPort (optsDev options behind)).bytes)] ⟨d, []⟩) =
      ⟨ended (createPort o value d), [(createPortCommand, value)]⟩) ∧
    (∀ o d, left (handleClient [(o, (removePort (optsDev options behind)).bytes)] ⟨d, []⟩) =
      ⟨deletePort o value d, [(deletePortCommand, value)]⟩) ∧
    xskIfname (optsDev options behind) = innerName value

/- The array after parsing. -/

def devArray (value : CString) : List UInt8 :=
  strncpy (List.replicate DEV_NAME_SIZE 0) (terminated value) DEV_NAME_SIZE

theorem strncpy_whole {dst : List UInt8} (value : CString) (whole : dst.length = DEV_NAME_SIZE) :
    strncpy dst (terminated value) DEV_NAME_SIZE = devArray value := by
  have mine : dst.drop DEV_NAME_SIZE = [] := List.drop_of_length_le (Nat.le_of_eq whole)
  have zeros : (List.replicate DEV_NAME_SIZE (0 : UInt8)).drop DEV_NAME_SIZE = [] :=
    List.drop_of_length_le (by simp)
  simp only [devArray, strncpy, mine, zeros]

theorem switchOptions_dev {options after : Options} {arg : Arg} {value : CString}
    (before : options.dev = devArray value) (switched : switchOptions options arg = some after) :
    after.dev = devArray ((lastDev [arg]).getD value) := by
  cases arg with
  | help => cases switched
  | version => cases switched
  | dev optarg =>
    obtain rfl := Option.some.inj switched
    exact strncpy_whole optarg options.devSize
  | noColors =>
    obtain rfl := Option.some.inj switched
    exact before
  | unknown => cases switched
  | other optarg => cases switched

theorem lastDev_cons (arg : Arg) (rest : List Arg) (value : CString) :
    (lastDev (arg :: rest)).getD value = (lastDev rest).getD ((lastDev [arg]).getD value) := by
  cases arg with
  | dev optarg => rfl
  | _ => rfl

theorem switch_all_dev {args : List Arg} {options after : Options} {value : CString}
    (before : options.dev = devArray value)
    (switched : args.foldlM switchOptions options = some after) :
    after.dev = devArray ((lastDev args).getD value) := by
  induction args generalizing options value with
  | nil =>
    obtain rfl := Option.some.inj switched
    exact before
  | cons arg rest ih =>
    rw [List.foldlM_cons] at switched
    obtain ⟨next, first, others⟩ := Option.bind_eq_some_iff.mp switched
    rw [lastDev_cons]
    exact ih (switchOptions_dev before first) others

theorem optionsParser_dev {args : List Arg} {operand : Option CString} {options after : Options}
    (parsed : optionsParser args operand options = some after) :
    after.dev = devArray ((lastDev args).getD devStdout) := by
  obtain ⟨switched, run, rfl⟩ := Option.map_eq_some_iff.mp parsed
  have filled := switch_all_dev (strncpy_whole devStdout options.devSize) run
  exact filled

/- The string in the array. -/

theorem ofArray_copy (value : CString) : CString.ofArray (terminated value) = value :=
  ofArray_terminated value []

theorem devArray_short {value : CString} (short : value.length ≤ 127) (behind : List UInt8) :
    CString.ofArray (devArray value ++ behind) = value := by
  have fits : (CString.ofArray (terminated value)).length < DEV_NAME_SIZE := by
    rw [ofArray_copy]
    exact Nat.lt_succ_of_le short
  obtain ⟨rest, array⟩ := strncpy_short (List.replicate DEV_NAME_SIZE 0) fits
  rw [ofArray_copy] at array
  rw [devArray, array, List.append_assoc]
  exact ofArray_terminated value (rest ++ behind)

theorem devArray_long {value : CString} (long : 128 ≤ value.length) (behind : List UInt8) :
    (CString.ofArray (devArray value ++ behind)).bytes =
      value.bytes.take 128 ++ (CString.ofArray behind).bytes := by
  have fills : DEV_NAME_SIZE ≤ (CString.ofArray (terminated value)).length := by
    rw [ofArray_copy]
    exact long
  have zeros : (List.replicate DEV_NAME_SIZE (0 : UInt8)).drop DEV_NAME_SIZE = [] :=
    List.drop_of_length_le (by simp)
  rw [devArray, strncpy_long _ fills, ofArray_copy, zeros, List.append_nil]
  exact ofArray_append (value.truncate 128) behind

theorem default_refused {args : List Arg} {operand : Option CString} {options after : Options}
    (parsed : optionsParser args operand options = some after) (none_given : lastDev args = none)
    (behind : List UInt8) : mainStarts (optsDev after behind) = false := by
  have short : devStdout.length ≤ 127 := by decide
  have same : optsDev after behind = devStdout := by
    rw [optsDev, optionsParser_dev parsed, none_given]
    exact devArray_short short behind
  simp [mainStarts, same]

/- One request. -/

theorem single_call_iff {bytes : List UInt8} {c : Invocation} (run : known c = true)
    (fits : bytes.length ≤ CMD_SIZE - 1) :
    (∀ o d, left (handleClient [(o, bytes)] ⟨d, []⟩) =
      ⟨ended (Invocation.perform o c d), [c]⟩) ↔ parseRead bytes = some c := by
  constructor
  · intro called
    have calls := congrArg Traced.calls (called smoothly bareDaemon)
    cases parsed : parseRead bytes with
    | none =>
      rw [handleClient, runRead, if_neg ((short_iff bytes).mp fits), parsed] at calls
      cases calls
    | some call =>
      obtain ⟨d', done⟩ := perform_unhindered smoothly_unhindered call bareDaemon
      rw [handleClient, runRead_eq smoothly _ fits parsed, done] at calls
      have kept : [call].filter known = [c] := calls
      have member : c ∈ [call].filter known := by simp [kept]
      rw [List.mem_singleton.mp (List.mem_of_mem_filter member)]
  · intro parsed o d
    have noted : [c].filter known = [c] := by simp [run]
    rw [handleClient, runRead_eq o _ fits parsed, noted]
    cases Invocation.perform o c d with
    | error d' => rfl
    | ok d' => cases o .writeReply <;> rfl

theorem request_parsed_iff (q : Request) : parseRead q.bytes = some q.call ↔ Clean q.call := by
  have noNul : (0 : UInt8) ∉ q.bytes := (requestCmd q.call.1 q.call.2).noNul
  obtain ⟨enough, whole⟩ := request_payload q
  constructor
  · intro parsed
    obtain ⟨-, used, -⟩ := parsed_payload noNul parsed
    exact whole.mp (Nat.le_antisymm enough used)
  · intro clean
    exact parseRead_of_words noNul (clean_request_words clean)

theorem clean_iff {command argument : CString} (name : command.bytes.length = 11)
    (short : argument.length ≤ 200) : Clean (command, argument) ↔ (32 : UInt8) ∉ argument.bytes := by
  have size : argument.bytes.length ≤ 200 := short
  unfold Clean CMD_SIZE
  dsimp only
  constructor
  · exact And.left
  · intro single
    exact ⟨single, by omega⟩

theorem create_parsed_iff {argument : CString} (short : argument.length ≤ 200) :
    parseRead (requestPort argument).bytes = some (createPortCommand, argument) ↔
      (32 : UInt8) ∉ argument.bytes :=
  (request_parsed_iff (.requestPort argument)).trans (clean_iff (by decide) short)

theorem remove_parsed_iff {argument : CString} (short : argument.length ≤ 200) :
    parseRead (removePort argument).bytes = some (deletePortCommand, argument) ↔
      (32 : UInt8) ∉ argument.bytes :=
  (request_parsed_iff (.removePort argument)).trans (clean_iff (by decide) short)

theorem create_known (data : CString) : known (createPortCommand, data) = true := by
  simp [known]

theorem delete_known (data : CString) : known (deletePortCommand, data) = true := by
  simp [known]

theorem requestCmd_short (command data : CString) :
    (requestCmd command data).bytes.length ≤ CMD_SIZE - 1 := by
  rw [requestCmd, CString.snprintf_bytes]
  exact List.length_take_le _ _

theorem samePort_iff (options : Options) (behind : List UInt8) (value : CString) :
    SamePort options behind value ↔
      (mainStarts (optsDev options behind) = true →
        parseRead (requestPort (optsDev options behind)).bytes =
            some (createPortCommand, value) ∧
          parseRead (removePort (optsDev options behind)).bytes =
            some (deletePortCommand, value) ∧
          xskIfname (optsDev options behind) = innerName value) := by
  have creates := single_call_iff (create_known value)
    (requestCmd_short createPortCommand (optsDev options behind))
  have deletes := single_call_iff (delete_known value)
    (requestCmd_short deletePortCommand (optsDev options behind))
  have differ : deletePortCommand ≠ createPortCommand := by decide
  simp only [Invocation.perform, if_true, if_neg differ, ended] at creates deletes
  unfold SamePort
  exact imp_congr_right fun _ => and_congr creates (and_congr deletes Iff.rfl)

/- The two ways to lose the value. -/

theorem short_same_iff {options : Options} {value : CString} (filled : options.dev = devArray value)
    (short : value.length ≤ 127) (behind : List UInt8) :
    SamePort options behind value ↔ (32 : UInt8) ∉ value.bytes := by
  have string : optsDev options behind = value := by
    rw [optsDev, filled]
    exact devArray_short short behind
  have fits : value.length ≤ 200 := Nat.le_trans short (by decide)
  rw [samePort_iff, string, create_parsed_iff fits, remove_parsed_iff fits]
  constructor
  · intro same
    by_cases refused : value = devStdout
    · rw [refused]
      decide
    · exact (same (by simp [mainStarts, refused])).1
  · intro single _
    exact ⟨single, single, rfl⟩

theorem optsDev_long {options : Options} {value : CString} (filled : options.dev = devArray value)
    (long : 128 ≤ value.length) (behind : List UInt8) :
    (optsDev options behind).bytes = value.bytes.take 128 ++ (CString.ofArray behind).bytes := by
  rw [optsDev, filled, devArray_long long]

theorem long_starts {options : Options} {value : CString} (filled : options.dev = devArray value)
    (long : 128 ≤ value.length) (behind : List UInt8) :
    mainStarts (optsDev options behind) = true := by
  have other : optsDev options behind ≠ devStdout := by
    intro refused
    have string := congrArg List.length (optsDev_long filled long behind)
    have eleven : devStdout.bytes.length = 11 := by decide
    have cut : (value.bytes.take 128).length = 128 := List.length_take_of_le long
    rw [refused, List.length_append] at string
    omega
  simp [mainStarts, other]

theorem long_read {options : Options} {value : CString} (filled : options.dev = devArray value)
    (long : 128 ≤ value.length) {behind : List UInt8}
    (small : (CString.ofArray behind).bytes.length ≤ 1)
    (single : (32 : UInt8) ∉ (CString.ofArray behind).bytes)
    (same : SamePort options behind value) :
    value.bytes = value.bytes.take 128 ++ (CString.ofArray behind).bytes := by
  have run := ((samePort_iff options behind value).mp same (long_starts filled long behind)).1
  have clean := parseRead_no_space run
  have string := optsDev_long filled long behind
  have fits : (optsDev options behind).length ≤ 200 := by
    have size := congrArg List.length string
    have cut : (value.bytes.take 128).length = 128 := List.length_take_of_le long
    rw [List.length_append, cut] at size
    change (optsDev options behind).bytes.length ≤ 200
    omega
  have words : (32 : UInt8) ∉ (optsDev options behind).bytes := by
    rw [string, List.mem_append, not_or]
    exact ⟨fun member => clean (List.mem_of_mem_take member), single⟩
  rw [(create_parsed_iff fits).mpr words] at run
  rw [← string, (Prod.mk.inj (Option.some.inj run)).2]

/-- A value of 128 bytes or more would have to be its first 128 bytes and also one more. -/
theorem long_differs {options : Options} {value : CString} (filled : options.dev = devArray value)
    (long : 128 ≤ value.length) : ¬ ∀ behind, SamePort options behind value := by
  intro always
  have cut : (value.bytes.take 128).length = 128 := List.length_take_of_le long
  have nothing := long_read filled long (by decide) (by decide) (always [])
  have letter := long_read filled long (by decide) (by decide) (always [65])
  have size := congrArg List.length nothing
  have size' := congrArg List.length letter
  rw [List.length_append, cut] at size size'
  change _ = 128 + 0 at size
  change _ = 128 + 1 at size'
  omega

theorem full_array_lost {options : Options} {value : CString}
    (filled : options.dev = devArray value) (full : value.bytes.length = 128) :
    optsDev options [65, 0] ≠ value ∧ ¬ SamePort options [65, 0] value := by
  have long : 128 ≤ value.length := Nat.le_of_eq full.symm
  have differ : value.bytes.length ≠
      (value.bytes.take 128 ++ (CString.ofArray [65, 0]).bytes).length := by
    rw [List.length_append, List.length_take]
    change _ ≠ _ + 1
    omega
  constructor
  · intro same
    have string := congrArg List.length (optsDev_long filled long [65, 0])
    rw [same] at string
    exact differ string
  · intro same
    have string := congrArg List.length (long_read filled long (by decide) (by decide) same)
    exact differ string

/-- Client and daemon mean the same port, whatever lies behind the options in memory, just
    when the value given to --dev is a single word that leaves room for its terminator. -/
theorem device_option_iff {args : List Arg} {operand : Option CString}
    {options after : Options} {value : CString}
    (parsed : optionsParser args operand options = some after)
    (given : lastDev args = some value) :
    (∀ behind, SamePort after behind value) ↔ (32 : UInt8) ∉ value.bytes ∧ value.length ≤ 127 := by
  have filled : after.dev = devArray value := by
    rw [optionsParser_dev parsed, given]
    rfl
  constructor
  · intro always
    have short : value.length ≤ 127 := by
      by_contra long
      exact long_differs filled (by omega) always
    exact ⟨(short_same_iff filled short []).mp (always []), short⟩
  · intro ⟨single, short⟩ behind
    exact (short_same_iff filled short behind).mpr single

def zeroOptions : Options :=
  ⟨false, false, false, List.replicate FILE_NAME_SIZE 0, List.replicate DEV_NAME_SIZE 0,
    by simp, by simp⟩

def parsedDev (value : CString) : Options :=
  getFileName none { setDefaultOptions zeroOptions with
    dev := strncpy (setDefaultOptions zeroOptions).dev (terminated value) DEV_NAME_SIZE
    devSize := strncpy_whole_length _ (setDefaultOptions zeroOptions).devSize }

theorem parsedDev_parsed (value : CString) :
    optionsParser [.dev value] none zeroOptions = some (parsedDev value) := rfl

theorem device_option_of_veth : SamePort (parsedDev vethW) [65, 0] vethW :=
  (device_option_iff (parsedDev_parsed vethW) rfl).mpr (by decide) [65, 0]

def twoWords : CString := ⟨ascii "a b", by decide⟩

def letters128 : CString := ⟨List.replicate 128 97, by decide⟩

/-- Of two words the daemon reads the first, and a value of 128 bytes runs on into the memory
    behind the options. -/
theorem device_option_lost :
    optsDev (parsedDev twoWords) [] = twoWords ∧
      (left (handleClient [(smoothly, (requestPort twoWords).bytes)] ⟨bareDaemon, []⟩)).calls =
        [(createPortCommand, ⟨[97], by decide⟩)] ∧
      ¬ SamePort (parsedDev twoWords) [] twoWords ∧
      optsDev (parsedDev letters128) [65, 0] ≠ letters128 ∧
      ¬ SamePort (parsedDev letters128) [65, 0] letters128 := by
  have filled : (parsedDev letters128).dev = devArray letters128 :=
    optionsParser_dev (parsedDev_parsed letters128)
  have full : letters128.bytes.length = 128 := List.length_replicate
  obtain ⟨longer, lost⟩ := full_array_lost filled full
  refine ⟨by decide, by decide, ?_, longer, lost⟩
  intro same
  have run := ((samePort_iff _ _ _).mp same (by decide)).1
  exact absurd run (by decide)

end XSKDeviceOption
