import MiryFormal.Shared.PosixPaths
import MiryFormal.Shared.ShellWords

/-!
# The rsync gateway

The forced command of the SSH key on the edge reads the command that the pipeline sent, and hands
rrsync another one. What rsync is asked to do has to stay the same, and has to be one of the two
transfers that the key is for.
-/

namespace MiryFormal

set_option autoImplicit false

open PosixPath

def dataRoot : List Char := "/srv/miry-data-rsync".toList

structure RestrictedCommand where
  originalCommand : List Char
  rrsyncArguments : List (List Char)
  deriving DecidableEq

/-- `_normalize_path` -/
def normalizePath (value : List Char) : Except String (List Char) :=
  if "/".toList <+: value then .error "absolute remote paths are not allowed"
  else
    let normalized := normpath value
    if normalized = dotdot ∨ "../".toList <+: normalized then
      .error "remote path traversal is not allowed"
    else .ok normalized

def restrictCommand (command : List Char) : Except String RestrictedCommand :=
  match ShellWords.split command with
  | .error _ => .error "invalid SSH command quoting"
  | .ok arguments =>
      if arguments.take 2 ≠ ["rsync".toList, "--server".toList] then
        .error "only the rsync server protocol is allowed"
      else
        match (arguments.drop 2).idxOf? dot with
        | none => .error "invalid rsync server command"
        | some offset =>
            let separator := offset + 2
            match arguments.drop (separator + 1) with
            | [path] => do
                let remotePath ← normalizePath path
                let sender := ((arguments.take separator).drop 2).take 1 = ["--sender".toList]
                let rewritten := arguments.take (separator + 1) ++ [dot]
                if sender ∧ remotePath = "ready".toList then
                  .ok ⟨ShellWords.join rewritten, ["-ro".toList, dataRoot ++ "/ready".toList]⟩
                else if ¬ sender ∧ remotePath = "control/acks".toList then
                  .ok ⟨ShellWords.join rewritten,
                    ["-wo".toList, "-no-del".toList, dataRoot ++ "/control/acks".toList]⟩
                else .error "remote path is not allowed"
            | _ => .error "exactly one remote path is required"

/-! ## What rsync is asked for -/

/-- A call of `rsync --server`: the side that it plays comes first among its options, and a dot
stands before the path. -/
structure ServerCall where
  options : List (List Char)
  path : List Char
  noDot : dot ∉ options

namespace ServerCall

def words (call : ServerCall) : List (List Char) :=
  ["rsync".toList, "--server".toList] ++ call.options ++ [dot, call.path]

/-- It sends files, it does not take them. -/
def IsSender (call : ServerCall) : Prop := call.options.head? = some "--sender".toList

instance (call : ServerCall) : Decidable call.IsSender := inferInstanceAs (Decidable (_ = _))

/-- The directory that is transferred, when rsync starts in another one. -/
def directory (call : ServerCall) (start : List (List Char)) : List (List Char) :=
  walk start call.path

/-- The part of the data root that the two sides share in this direction. -/
def shared (call : ServerCall) : List (List Char) :=
  if call.IsSender then ["ready".toList] else ["control".toList, "acks".toList]

/-- The transfers that the key is for. -/
structure Permitted (call : ServerCall) : Prop where
  relative : IsRelative call.path
  inside : StaysInside call.path
  shared : call.directory (walk [] dataRoot) = walk [] dataRoot ++ call.shared

/-- How rrsync is told to restrict the call. -/
def restriction (call : ServerCall) : List (List Char) :=
  if call.IsSender then ["-ro".toList] else ["-wo".toList, "-no-del".toList]

end ServerCall

namespace ServerCall
variable {call : ServerCall}

/-- The call that the gateway passes on. -/
def rewritten (call : ServerCall) : ServerCall := { call with path := dot }

def restricted (call : ServerCall) : RestrictedCommand where
  originalCommand := ShellWords.join call.rewritten.words
  rrsyncArguments := call.restriction ++ [dataRoot ++ '/' :: joined call.shared]

theorem permitted_iff : call.Permitted ↔ IsRelative call.path ∧ StaysInside call.path ∧
    normpath call.path = joined call.shared := by
  have hwalk : ∀ directory, walk directory (joined call.shared) = directory ++ call.shared := by
    intro directory
    unfold shared
    split
    · rfl
    · exact List.append_assoc directory ["control".toList] ["acks".toList]
  constructor
  · rintro ⟨hrelative, hinside, hshared⟩
    refine ⟨hrelative, hinside, normpath_of_walk hrelative hinside ?_ hshared⟩
    unfold shared
    split <;> exact List.cons_ne_nil _ _
  · rintro ⟨hrelative, hinside, hnormal⟩
    refine ⟨hrelative, hinside, ?_⟩
    rw [directory, ← walk_normpath hrelative, hnormal, hwalk]

end ServerCall

variable {command : List Char} {call : ServerCall}

theorem normalizePath_ok {value normalized : List Char} :
    normalizePath value = .ok normalized ↔
      IsRelative value ∧ StaysInside value ∧ normpath value = normalized := by
  unfold normalizePath
  by_cases hrelative : IsRelative value
  · rw [if_neg hrelative]
    dsimp only
    by_cases hinside : StaysInside value
    · rw [if_neg fun h => (climbs_iff hrelative).mp h hinside, Except.ok.injEq]
      exact ⟨fun h => ⟨hrelative, hinside, h⟩, fun h => h.2.2⟩
    · rw [if_pos ((climbs_iff hrelative).mpr hinside)]
      exact ⟨fun h => (nomatch h), fun h => absurd h.2.1 hinside⟩
  · rw [if_pos (not_not.mp hrelative)]
    exact ⟨fun h => (nomatch h), fun h => absurd h.1 hrelative⟩

theorem idxOf?_front {front back : List (List Char)} {word : List Char} (h : word ∉ front) :
    (front ++ word :: back).idxOf? word = some front.length := by
  induction front with
  | nil => rw [List.nil_append, List.idxOf?_cons, if_pos (beq_self_eq_true word)]; rfl
  | cons first front ih =>
    rw [List.mem_cons, not_or] at h
    rw [List.cons_append, List.idxOf?_cons, if_neg (by simpa using Ne.symm h.1), ih h.2]
    rfl

/-- The gateway accepts nothing but a call of the server. -/
theorem call_of_restrictCommand {restricted : RestrictedCommand}
    (h : restrictCommand command = .ok restricted) :
    ∃ call : ServerCall, ShellWords.split command = .ok call.words := by
  unfold restrictCommand at h
  cases hsplit : ShellWords.split command with
  | error e => rw [hsplit] at h; exact nomatch h
  | ok arguments =>
    rw [hsplit] at h
    dsimp only at h
    split at h
    · exact nomatch h
    rename_i hserver
    split at h
    · exact nomatch h
    rename_i offset hoffset
    split at h
    · rename_i path hpath
      have hmem : dot ∈ arguments.drop 2 := by
        rw [← List.isSome_idxOf?, hoffset]
        rfl
      obtain ⟨options, back, hsplit', hnoDot⟩ := List.eq_append_cons_of_mem hmem
      have hwords : arguments = ["rsync".toList, "--server".toList] ++ (options ++ dot :: back) := by
        rw [← hsplit', ← not_not.mp hserver, List.take_append_drop]
      rw [hsplit', idxOf?_front hnoDot, Option.some.injEq] at hoffset
      have hback : back = [path] := by
        rw [← hpath, hwords, ← hoffset]
        have hlength : (["rsync".toList, "--server".toList] ++ (options ++ [dot])).length =
            options.length + 2 + 1 := by simp
        have happend : ["rsync".toList, "--server".toList] ++ (options ++ dot :: back) =
            ["rsync".toList, "--server".toList] ++ (options ++ [dot]) ++ back := by simp
        rw [happend, ← hlength, List.drop_left]
      refine ⟨⟨options, path, hnoDot⟩, ?_⟩
      rw [hwords, hback, ← List.append_assoc]
      rfl
    · exact nomatch h

theorem rewritten_words :
    call.words.take (call.options.length + 2 + 1) ++ [dot] = call.rewritten.words := by
  have hlength : (["rsync".toList, "--server".toList] ++ call.options ++ [dot]).length =
      call.options.length + 2 + 1 := by simp
  have happend : call.words =
      ["rsync".toList, "--server".toList] ++ call.options ++ [dot] ++ [call.path] := by
    rw [ServerCall.words, List.append_assoc _ [dot]]
    rfl
  rw [happend, ← hlength, List.take_left, List.append_assoc _ [dot]]
  rfl

theorem isSender_words : ((call.words.take (call.options.length + 2)).drop 2).take 1 =
    ["--sender".toList] ↔ call.IsSender := by
  have hlength : (["rsync".toList, "--server".toList] ++ call.options).length =
      call.options.length + 2 := by simp
  unfold ServerCall.words ServerCall.IsSender
  rw [← hlength, List.take_left]
  cases call.options with
  | nil => exact ⟨fun h => (nomatch h), fun h => (nomatch h)⟩
  | cons first rest => exact ⟨fun h => by rw [List.head?_cons, (List.cons.inj h).1], fun h => by
      rw [List.head?_cons, Option.some.injEq] at h
      rw [h]
      rfl⟩

theorem restrictCommand_call {restricted : RestrictedCommand}
    (h : ShellWords.split command = .ok call.words) :
    restrictCommand command = .ok restricted ↔ call.Permitted ∧ restricted = call.restricted := by
  have htake : call.words.take 2 = ["rsync".toList, "--server".toList] := rfl
  have hoffset : (call.words.drop 2).idxOf? dot = some call.options.length :=
    @idxOf?_front call.options [call.path] dot call.noDot
  have hpath : call.words.drop (call.options.length + 2 + 1) = [call.path] := by
    have hlength : (["rsync".toList, "--server".toList] ++ call.options ++ [dot]).length =
        call.options.length + 2 + 1 := by simp
    have happend : call.words =
        ["rsync".toList, "--server".toList] ++ call.options ++ [dot] ++ [call.path] := by
      rw [ServerCall.words, List.append_assoc _ [dot]]
      rfl
    rw [happend, ← hlength, List.drop_left]
  unfold restrictCommand
  rw [h]
  dsimp only
  rw [if_neg (not_not.mpr htake), hoffset]
  dsimp only
  rw [hpath]
  dsimp only
  rw [rewritten_words]
  simp only [isSender_words]
  rw [ServerCall.permitted_iff]
  cases hnormal : normalizePath call.path with
  | error e =>
    refine ⟨fun h => (nomatch h), fun h => ?_⟩
    rw [normalizePath_ok.mpr h.1] at hnormal
    exact nomatch hnormal
  | ok remotePath =>
    obtain ⟨hrelative, hinside, hpath⟩ := normalizePath_ok.mp hnormal
    rw [hpath]
    change (if call.IsSender ∧ remotePath = "ready".toList then Except.ok _
      else if ¬ call.IsSender ∧ remotePath = "control/acks".toList then Except.ok _
      else Except.error _) = Except.ok restricted ↔ _
    unfold ServerCall.restricted ServerCall.restriction ServerCall.shared
    by_cases hsender : call.IsSender
    · simp only [hsender, not_true_eq_false, true_and, false_and, if_true, if_false]
      have hjoined : joined ["ready".toList] = "ready".toList := rfl
      rw [hjoined]
      by_cases hready : remotePath = "ready".toList
      · rw [if_pos hready, Except.ok.injEq]
        exact ⟨fun h => ⟨⟨hrelative, hinside, hready⟩, h.symm⟩, fun h => h.2.symm⟩
      · rw [if_neg hready]
        exact ⟨fun h => (nomatch h), fun h => absurd h.1.2.2 hready⟩
    · simp only [hsender, not_false_eq_true, true_and, false_and, if_false]
      have hjoined : joined ["control".toList, "acks".toList] = "control/acks".toList := rfl
      rw [hjoined]
      by_cases hacks : remotePath = "control/acks".toList
      · rw [if_pos hacks, Except.ok.injEq]
        exact ⟨fun h => ⟨⟨hrelative, hinside, hacks⟩, h.symm⟩, fun h => h.2.symm⟩
      · rw [if_neg hacks]
        exact ⟨fun h => (nomatch h), fun h => absurd h.1.2.2 hacks⟩

/-- The root that rrsync is given is the shared part of the data root. -/
theorem walk_shared (call : ServerCall) :
    walk [] (dataRoot ++ '/' :: joined call.shared) = walk [] dataRoot ++ call.shared := by
  unfold ServerCall.shared
  split <;> decide

theorem staysInside_dot : StaysInside dot := staysInside_iff.mpr (by decide)

/-- rsync is asked for the same options on the same directory by the command that rrsync reads as
by the one that came in, within the part of the data root that the key is for: `ready` to send
from, `control/acks` to take into without deleting. Every other command is refused. -/
theorem restrictCommand_served (command : List Char) :
    match restrictCommand command with
    | .error _ => ∀ call : ServerCall, ShellWords.split command = .ok call.words → ¬ call.Permitted
    | .ok restricted => ∃ call passed : ServerCall, ∃ root,
        ShellWords.split command = .ok call.words ∧ call.Permitted ∧
        ShellWords.split restricted.originalCommand = .ok passed.words ∧
        passed.options = call.options ∧ StaysInside passed.path ∧
        restricted.rrsyncArguments = call.restriction ++ [root] ∧
        walk [] root = walk [] dataRoot ++ call.shared ∧
        passed.directory (walk [] root) = call.directory (walk [] dataRoot) := by
  cases hrestrict : restrictCommand command with
  | error e =>
    intro call hsplit hpermitted
    have hok := (restrictCommand_call hsplit).mpr ⟨hpermitted, rfl⟩
    rw [hrestrict] at hok
    exact nomatch hok
  | ok restricted =>
    obtain ⟨call, hsplit⟩ := call_of_restrictCommand hrestrict
    obtain ⟨hpermitted, rfl⟩ := (restrictCommand_call hsplit).mp hrestrict
    refine ⟨call, call.rewritten, dataRoot ++ '/' :: joined call.shared, hsplit, hpermitted,
      ShellWords.split_join _, rfl, staysInside_dot, rfl, walk_shared call, ?_⟩
    have hhere : call.rewritten.directory (walk [] dataRoot ++ call.shared) =
        walk [] dataRoot ++ call.shared := rfl
    rw [walk_shared, hhere, hpermitted.shared]

example : (restrictCommand "rsync --server --sender -logDtpre.iLsfxCIvu . 'x/../ready/'".toList).map
    (·.originalCommand) =
      .ok "rsync --server --sender -logDtpre.iLsfxCIvu . .".toList := by decide

end MiryFormal
