import Equic.Server.System

/-!
# What the HTTP server prints

The text that the server leaves on its standard output: the lines of the two connection
callbacks, with those of `debug_connection` among them, the lines of the thread
`request_counter`, which come in at any point, and with `-e` those of the setup and of the
signal callbacks of `equic_user.c`.

`inet_ntoa` has one static buffer. `debug_connection` calls it for the server and then for the
client, and prints the buffer twice.
-/

namespace Equic.Server

open Equic.Foundation Equic.Net Equic.Kern Equic.User

/-! ## §1 Formats -/

/-- `%d` -/
def decimal (n : ℤ) : List Char :=
  if n < 0 then '-' :: Nat.toDigits 10 n.natAbs else Nat.toDigits 10 n.natAbs

/-- `%.3ld`: three digits at least -/
def decimal3 (n : ℤ) : List Char :=
  let digits := Nat.toDigits 10 n.natAbs
  let padded := List.replicate (3 - digits.length) '0' ++ digits
  if n < 0 then '-' :: padded else padded

/-- The characters of numbers and addresses. -/
def isPlain (c : Char) : Bool := c.isDigit || c = '.' || c = '-'

/-- `%.3f` for a quotient of doubles: `printf` of `n / d`, of which only the characters are
    known. -/
structure Fixed3 where
  text : ℤ → ℕ → List Char
  plain : ∀ n d, ∀ c ∈ text n d, isPlain c = true

theorem isPlain_of_isDigit {c : Char} (h : c.isDigit = true) : isPlain c = true := by
  rw [isPlain, h]
  rfl

theorem isPlain_toDigits {n : ℕ} {c : Char} (h : c ∈ Nat.toDigits 10 n) : isPlain c = true :=
  isPlain_of_isDigit (Nat.isDigit_of_mem_toDigits (by omega) (by omega) h)

theorem isPlain_decimal {n : ℤ} {c : Char} (h : c ∈ decimal n) : isPlain c = true := by
  unfold decimal at h
  split at h
  · obtain rfl | h := List.mem_cons.mp h
    · rfl
    · exact isPlain_toDigits h
  · exact isPlain_toDigits h

theorem isPlain_decimal3 {n : ℤ} {c : Char} (h : c ∈ decimal3 n) : isPlain c = true := by
  have hpadded : ∀ k, c ∈ List.replicate k '0' ++ Nat.toDigits 10 n.natAbs → isPlain c = true := by
    intro k hc
    obtain hc | hc := List.mem_append.mp hc
    · rw [List.eq_of_mem_replicate hc]
      rfl
    · exact isPlain_toDigits hc
  unfold decimal3 at h
  dsimp only at h
  split at h
  · obtain rfl | h := List.mem_cons.mp h
    · rfl
    · exact hpadded _ h
  · exact hpadded _ h

theorem isPlain_inetNtoa {a : InAddr} {c : Char} (h : c ∈ inetNtoa a) : isPlain c = true := by
  simp only [inetNtoa, List.mem_append, List.mem_cons] at h
  have hdigits : ∀ o : UInt8, c ∈ octetDigits o → isPlain c = true := fun o hc =>
    isPlain_of_isDigit (octetDigits_isDigit hc)
  obtain (((h | rfl | h) | rfl | h) | rfl | h) := h <;> first | exact hdigits _ h | rfl

/-- The values of `errno` after a call of `bpf(2)`; zero if no call has failed. -/
inductive Errno where
  | zero
  | e2big
  | eacces
  | ebadf
  | ebusy
  | eexist
  | efault
  | einval
  | enoent
  | enomem
  | enosys
  | enotsup
  | eperm
  deriving DecidableEq, Repr

/-- `strerror` -/
def strerror : Errno → List Char
  | .zero => "Success".toList
  | .e2big => "Argument list too long".toList
  | .eacces => "Permission denied".toList
  | .ebadf => "Bad file descriptor".toList
  | .ebusy => "Device or resource busy".toList
  | .eexist => "File exists".toList
  | .efault => "Bad address".toList
  | .einval => "Invalid argument".toList
  | .enoent => "No such file or directory".toList
  | .enomem => "Cannot allocate memory".toList
  | .enosys => "Function not implemented".toList
  | .enotsup => "Operation not supported".toList
  | .eperm => "Operation not permitted".toList

/-! ## §2 Lines -/

/-- The actions that `debug_connection` prints. -/
inductive ConnAction where
  | setup
  | close
  deriving DecidableEq, Repr

def ConnAction.text : ConnAction → List Char
  | .setup => "ConnectionSetup".toList
  | .close => "ConnectionClose".toList

/-- The lines of `equic_user.c` around the life of the XDP program. -/
inductive ProgramLine where
  /-- `equic_get_interface` -/
  | noInterface
  | interfaceRead (ifIndex : CInt)
  /-- `equic_read_object` -/
  | notLoaded
  | objectLoaded
  | noMap
  | mapLoaded
  | noProgFd (errno : Errno)
  /-- `equic_load` -/
  | notAttached
  | noInfo (errno : Errno)
  | attached
  /-- `equic_sigint_callback` and `equic_sigterm_callback` -/
  | exitInt
  | exitTerm
  | callError
  | unloaded (ifIndex : CInt)
  | notFound
  | updated
  deriving DecidableEq, Repr

/-- One call of `printf`. -/
inductive StdoutLine where
  /-- A line of a callback, and `errno` at the time. -/
  | callback (line : LogLine) (errno : Errno)
  /-- `debug_connection` -/
  | connection (action : ConnAction) (local_ peer : SockaddrIn)
  /-- `request_counter` -/
  | requestsPerSecond (n : CInt)
  /-- The setup and the signal callbacks. -/
  | program (line : ProgramLine)
  deriving DecidableEq, Repr

/-- A counter update that went through. -/
def updateLine (action : List Char) (mapKey : InAddr) (mapValue : CInt) : List Char :=
  "[eQUIC] Action=".toList ++ action ++ ", Type=BPFMapUpdate, MapKey=".toList ++
    inetNtoa mapKey ++ ", MapValue=".toList ++ decimal mapValue.toInt ++ ['\n']

/-- A counter update that failed. -/
def updateErrorLine (action : List Char) (errno : Errno) : List Char :=
  "[eQUIC] Action=".toList ++ action ++ ", Error=".toList ++ strerror errno ++
    ", Type=BPFMapUpdate, Function=bpf_map_update_elem\n".toList

/-- What `equic_inc_counter` and `equic_dec_counter` print. -/
def counterText (errno : Errno) : CounterAction → List Char
  | .increment mapKey mapValue => updateLine "CounterIncrement".toList mapKey mapValue
  | .incrementError => updateErrorLine "CounterIncrement".toList errno
  | .creation mapKey mapValue => updateLine "CounterCreation".toList mapKey mapValue
  | .creationError => updateErrorLine "CounterCreation".toList errno
  | .decrement mapKey mapValue => updateLine "CounterDecrement".toList mapKey mapValue
  | .decrementError => updateErrorLine "CounterDecrement".toList errno
  | .zeroReturn => []
  | .lookupMiss => []

/-- A line of the user-space quota. -/
def userSpaceLine (action key : List Char) (value : CInt) : List Char :=
  "[eQUIC] Action=".toList ++ action ++ ", Type=UserSpace, Key=".toList ++ key ++
    ", Value=".toList ++ decimal value.toInt ++ ['\n']

/-- What `inc_quota`, `dec_quota` and `reached_quota_limit` print. -/
def quotaText : QuotaLine → List Char
  | .increment key value => userSpaceLine "Increment".toList key value
  | .decrement key value => userSpaceLine "Decrement".toList key value
  | .exceeded key value => userSpaceLine "Exceeded".toList key value
  | .notExceeded key value => userSpaceLine "NotExceeded".toList key value

/-- A line with a duration, from `elapsed_time_ms` or `calculate_quota_block_time`. -/
def durationLine (key duration : List Char) (beginInNs endInNs : ℤ) : List Char :=
  "[eQUIC] ".toList ++ key ++ ['='] ++ duration ++ ", Begin=".toList ++ decimal3 beginInNs ++
    ", End=".toList ++ decimal3 endInNs ++ ['\n']

/-- A line that reports an action. -/
def actionLine (t : List Char) : List Char := "[eQUIC] Action=".toList ++ t ++ ['\n']

/-- A line that reports an error. -/
def errorLine (t : List Char) : List Char := "[eQUIC] Error=".toList ++ t ++ ['\n']

/-- What the setup and the signal callbacks print, for the interface and the object file that
    every `main` gives. -/
def programText : ProgramLine → List Char
  | .noInterface => errorLine "Name to index failed, Type=OS, Interface=eth0".toList
  | .interfaceRead ifIndex =>
    actionLine ("Read, Type=OS, Interface=".toList ++ decimal ifIndex.toInt)
  | .notLoaded => errorLine "Load prog attr failed, Type=BPF".toList
  | .objectLoaded => actionLine "Load, Type=BPF, Object=/src/equic/bin/equic_kern.o".toList
  | .noMap => errorLine "Find map failed, Type=BPF".toList
  | .mapLoaded => actionLine "Load, Type=BPF, Map=counters".toList
  | .noProgFd errno =>
    errorLine (strerror errno ++ ", Type=BPF, Function=bpf_prog_load_xattr".toList)
  | .notAttached => errorLine "Link setup failed, Type=BPF, Function=bpf_set_link_xdp_fd".toList
  | .noInfo errno =>
    errorLine (strerror errno ++ ", Type=BPF, Function=bpf_obj_get_info_by_fd".toList)
  | .attached => actionLine "Setup, Type=BPF, Hook=XDP".toList
  | .exitInt => actionLine "exit, Signal=INT".toList
  | .exitTerm => actionLine "exit, Signal=TERM".toList
  | .callError => errorLine "CallError, Type=BPF, Function=bpf_get_link_xdp_id".toList
  | .unloaded ifIndex =>
    actionLine ("Unload, Type=BPF, InterfaceIndex=".toList ++ decimal ifIndex.toInt)
  | .notFound => errorLine "NotFound, Type=BPF, Message=No program found".toList
  | .updated => actionLine "Update, Type=BPF".toList

/-- The text of a line. -/
def StdoutLine.text (fixed3 : Fixed3) : StdoutLine → List Char
  | .callback (.counter action) errno => counterText errno action
  | .callback (.quota line) _ => quotaText line
  | .callback (.blockDuration beginInNs endInNs) _ =>
    durationLine "BlockDuration".toList (fixed3.text (endInNs - beginInNs) 1000) beginInNs endInNs
  | .callback (.requestDuration beginInNs endInNs) _ =>
    durationLine "RequestDuration".toList (fixed3.text (endInNs - beginInNs) 1000000) beginInNs
      endInNs
  | .connection action local_ peer =>
    "[eQUIC] Action=".toList ++ action.text ++ ", Client=".toList ++ inetNtoa peer.sinAddr ++
      ", SourcePort=".toList ++ decimal peer.sinPort.toNat ++ ", Server=".toList ++
      -- the static buffer of `inet_ntoa`
      inetNtoa peer.sinAddr ++
      ", DestinationPort=".toList ++ decimal local_.sinPort.toNat ++ ['\n']
  | .requestsPerSecond n => "[eQUIC] RequestsPerSecond=".toList ++ decimal n.toInt ++ ['\n']
  | .program line => programText line

/-- The text of the peer in a quota line. -/
def quotaKey : QuotaLine → List Char
  | .increment key _ | .decrement key _ | .exceeded key _ | .notExceeded key _ => key

/-- The text of the peer is an address. -/
def PlainKey : StdoutLine → Prop
  | .callback (.quota line) _ => ∀ c ∈ quotaKey line, isPlain c = true
  | _ => True

/-! ## §3 Runs -/

/-- An event, the address of the server, and the error of an update that fails. -/
structure PrintEvent where
  event : Event
  local_ : SockaddrIn
  errno : Errno
  deriving DecidableEq, Repr

/-- What the callback of an event prints. -/
def printed (s : System) (x : PrintEvent) : List StdoutLine :=
  match x.event with
  | .newConn c peer fault now =>
    let r := httpServerOnNewConn fault now s.server c (.inet peer)
    r.log.map (.callback · x.errno) ++
      if r.closing then [] else [.connection .setup x.local_ peer]
  | .migrate .. => []
  | .connClosed c fault now =>
    match s.live.lookup c with
    | none => []
    | some r => .connection .close x.local_ r.peer ::
      (httpServerOnConnClosed fault now s.server (.inet r.peer)).2.map (.callback · x.errno)

/-- What is collected in a run, event by event. A run ends at the first event that is not
    possible. -/
def collectAlong {α : Type*} (f : System → PrintEvent → List α) :
    System → List PrintEvent → List α
  | _, [] => []
  | s, x :: xs =>
    match step s x.event with
    | none => []
    | some s' => f s x ++ collectAlong f s' xs

/-- What the event loop prints in a run. -/
def printedAlong : System → List PrintEvent → List StdoutLine := collectAlong printed

theorem collectAlong_flatMap {α β : Type*} (f : System → PrintEvent → List α) (g : α → List β)
    (s : System) (xs : List PrintEvent) :
    (collectAlong f s xs).flatMap g = collectAlong (fun s x => (f s x).flatMap g) s xs := by
  induction xs generalizing s with
  | nil => rfl
  | cons x xs ih =>
    simp only [collectAlong]
    cases step s x.event with
    | none => rfl
    | some s' =>
      dsimp only
      rw [List.flatMap_append, ih]

/-- Two collections agree that agree on every possible event, in the states with a property that
    every event keeps. -/
theorem collectAlong_congr {α : Type*} {f g : System → PrintEvent → List α} {P : System → Prop}
    (hP : ∀ s (x : PrintEvent) s', P s → step s x.event = some s' → P s')
    (hfg : ∀ s (x : PrintEvent) s', P s → step s x.event = some s' → f s x = g s x)
    {s : System} (hs : P s) (xs : List PrintEvent) : collectAlong f s xs = collectAlong g s xs := by
  induction xs generalizing s with
  | nil => rfl
  | cons x xs ih =>
    simp only [collectAlong]
    cases hstep : step s x.event with
    | none => rfl
    | some s' =>
      dsimp only
      rw [hfg s x s' hs hstep, ih (hP s x s' hs hstep)]

theorem plainKey_log {fault : Bool} {now : Timespec} {s : HttpServer} {c : ConnId}
    {peer : Sockaddr} (errno : Errno) :
    ∀ line ∈ (httpServerOnNewConn fault now s c peer).log ++
      (httpServerOnConnClosed fault now s peer).2, PlainKey (.callback line errno) := by
  have hreached : ∀ quotas : Quotas, ∀ d ∈ quotaKey (reachedQuotaLimit quotas peer).2,
      isPlain d = true := by
    intro quotas d hd
    unfold reachedQuotaLimit at hd
    dsimp only at hd
    split at hd <;> exact isPlain_inetNtoa hd
  have hinc : ∀ quotas : Quotas, ∀ d ∈ quotaKey (incQuota quotas peer).2, isPlain d = true :=
    fun quotas d hd => isPlain_inetNtoa hd
  have hdec : ∀ quotas : Quotas, ∀ d ∈ quotaKey (decQuota quotas peer).2, isPlain d = true :=
    fun quotas d hd => isPlain_inetNtoa hd
  rw [List.forall_mem_append]
  constructor
  · unfold httpServerOnNewConn
    dsimp only
    split_ifs
    · simp [PlainKey]
    · simpa [PlainKey, calculateQuotaBlockTime] using hreached s.quotas
    · simpa [PlainKey] using And.intro (hreached s.quotas) (hinc s.quotas)
  · unfold httpServerOnConnClosed
    dsimp only
    split_ifs
    · simp [PlainKey, elapsedTimeMs]
    · simpa [PlainKey, elapsedTimeMs] using hdec s.quotas

/-- Everything that the event loop prints has an address for its key. -/
theorem plainKey_printed (s : System) (x : PrintEvent) : ∀ line ∈ printed s x, PlainKey line := by
  intro line hline
  unfold printed at hline
  split at hline
  · rename_i c peer fault now _
    dsimp only at hline
    obtain hline | hline := List.mem_append.mp hline
    · obtain ⟨l, hl, rfl⟩ := List.mem_map.mp hline
      exact plainKey_log x.errno l (List.mem_append_left _ hl)
    · split at hline
      · cases hline
      · rw [List.mem_singleton.mp hline]
        trivial
  · cases hline
  · split at hline
    · cases hline
    · obtain rfl | hline := List.mem_cons.mp hline
      · trivial
      · obtain ⟨l, hl, rfl⟩ := List.mem_map.mp hline
        exact plainKey_log (c := 0) x.errno l (List.mem_append_right _ hl)

/-- The value of a report of `request_counter`. -/
def StdoutLine.report : StdoutLine → Option CInt
  | .requestsPerSecond n => some n
  | _ => none

/-- The lines of the event loop. -/
def StdoutLine.ofEventLoop : StdoutLine → Bool
  | .callback .. | .connection .. => true
  | .requestsPerSecond _ | .program _ => false

/-- The output of the process, as far as it is of whole lines: those of the event loop in
    their order, with reports of `request_counter` and lines of `equic_user.c` anywhere among
    them. -/
def IsOutput (s : System) (xs : List PrintEvent) (out : List StdoutLine) : Prop :=
  out.filter StdoutLine.ofEventLoop = printedAlong s xs

theorem mem_collectAlong {α : Type*} {f : System → PrintEvent → List α} {a : α} {s : System}
    {xs : List PrintEvent} (h : a ∈ collectAlong f s xs) : ∃ s x, a ∈ f s x := by
  induction xs generalizing s with
  | nil => cases h
  | cons x xs ih =>
    simp only [collectAlong] at h
    split at h
    · cases h
    · obtain h | h := List.mem_append.mp h
      · exact ⟨s, x, h⟩
      · exact ih h

/-- Every line of the output has an address for its key. -/
theorem IsOutput.plainKey {s : System} {xs : List PrintEvent} {out : List StdoutLine}
    (h : IsOutput s xs out) : ∀ line ∈ out, PlainKey line := by
  intro line hline
  by_cases hloop : line.ofEventLoop = true
  · have hmem : line ∈ printedAlong s xs := h ▸ List.mem_filter.mpr ⟨hline, hloop⟩
    obtain ⟨s', x, hmem⟩ := mem_collectAlong hmem
    exact plainKey_printed s' x line hmem
  · cases line with
    | callback line errno => exact absurd rfl hloop
    | connection action local_ peer => trivial
    | requestsPerSecond n => trivial
    | program line => trivial

end Equic.Server
