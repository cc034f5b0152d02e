import Mathlib.Tactic.Ring
import TamagoUefi.Lib.Retry
import TamagoUefi.Net.Dns

/-!
# TamagoUefi.Net.DialRetry — dials that are tried again (`dial_retry.go`, `tls.go`)

`DialTCP4WithRetry` and `DialTLSWithRetry` are one loop over two kinds of attempt: `dialTCP4Once`, and
`dialTLSOnce`, which dials, among other things.  It dials with `DialTCP4`, which is a retry loop of its
own with the settings of the stack.

The network, the resolver and the TLS library are a `DialWorld`: each call gets an answer that may depend on
everything that happened before.  What happened is the log; its event `attempted` is not in the program.

* `isRetryableDialError`: the errors, and which of them end the loop.
* `BudgetKept`: what the caller asked for.
* `retryBudget_iff`: for which settings every world keeps it.
-/

namespace TamagoUefi.Net

open Go Lib

/-! ## Errors -/

/-- The errors that `isRetryableDialError` asks for by name. -/
inductive Sentinel
  | tlsNoServerName
  | tcp4InvalidAddr
  | dnsInvalidServer
  | stackClosed
  | ipv4InvalidIP
  | tcp4NoLocalAddr
  | tcp4ConnRefused
  deriving DecidableEq

def Sentinel.text : Sentinel → Bytes
  | .tlsNoServerName => str "ministack: TLS requires a non-empty server name"
  | .tcp4InvalidAddr => str "ministack: TCP destination must be IPv4"
  | .dnsInvalidServer => str "ministack: DNS server address must be IPv4"
  | .stackClosed => str "ministack: stack closed"
  | .ipv4InvalidIP => str "ministack: IPv4 address must be 4 bytes"
  | .tcp4NoLocalAddr => str "ministack: no local IPv4 address set"
  | .tcp4ConnRefused => str "ministack: TCP connection refused (RST)"

/-- What the resolver, a dial or a handshake can return. -/
inductive LegError
  | sentinel (s : Sentinel)
  /-- `*tls.CertificateVerificationError` and the three errors of `x509` -/
  | certificate (text : Bytes)
  | other (text : Bytes)
  /-- An error with another one behind `Unwrap`. -/
  | wraps (text : Bytes) (e : LegError)
  deriving DecidableEq

inductive DialError
  | leg (e : LegError)
  /-- `ErrDialAttemptsExhausted` -/
  | exhausted (attempts : ℤ) (last : DialError)
  deriving DecidableEq

/-- `errors.Is`. -/
def LegError.is : LegError → Sentinel → Bool
  | .sentinel t, s => t = s
  | .certificate _, _ => false
  | .other _, _ => false
  | .wraps _ e, s => e.is s

/-- `errors.As` with the certificate errors. -/
def LegError.asCertificate : LegError → Bool
  | .sentinel _ => false
  | .certificate _ => true
  | .other _ => false
  | .wraps _ e => e.asCertificate

def LegError.text : LegError → Bytes
  | .sentinel s => s.text
  | .certificate text => text
  | .other text => text
  | .wraps text _ => text

def dialRetryItoa (n : ℤ) : Bytes := (if n < 0 then str "-" else []) ++ formatUint n.natAbs

namespace DialError

def is : DialError → Sentinel → Bool
  | leg e, s => e.is s
  | exhausted _ last, s => last.is s

def asCertificate : DialError → Bool
  | leg e => e.asCertificate
  | exhausted _ last => last.asCertificate

def text : DialError → Bytes
  | leg e => e.text
  | exhausted attempts last =>
    str "ministack: dial attempts exhausted (" ++ dialRetryItoa attempts ++ str " tries): " ++ last.text

end DialError

def isRetryableDialError (err : DialError) : Bool :=
  if err.is .tlsNoServerName || err.is .tcp4InvalidAddr || err.is .dnsInvalidServer || err.is .stackClosed ||
      err.is .ipv4InvalidIP || err.is .tcp4NoLocalAddr || err.is .tcp4ConnRefused then false
  else if err.asCertificate then false
  else if contains err.text (str "tls: failed to verify certificate") ||
      contains err.text (str "x509: certificate") then false
  else true

/-! ## Settings -/

structure DialSettings where
  defaultDialAttempts : ℤ
  /-- A `time.Duration`: nanoseconds in an `int64`. -/
  defaultDialBaseDelay : Int64

def defaultDialAttemptsFallback : ℤ := 3
def defaultDialBaseDelayFallback : Int64 := 2000000000
def defaultDialTimeout : Int64 := 10000000000

namespace DialSettings

def dialAttemptsOrDefault (s : DialSettings) (n : ℤ) : ℤ :=
  if n ≤ 0 then
    if s.defaultDialAttempts > 0 then s.defaultDialAttempts else defaultDialAttemptsFallback
  else n

def dialBaseDelayOrDefault (s : DialSettings) (d : Int64) : Int64 :=
  if d ≤ 0 then
    if s.defaultDialBaseDelay > 0 then s.defaultDialBaseDelay else defaultDialBaseDelayFallback
  else d

end DialSettings

/-! ## Dials -/

inductive DialEvent
  /-- `dialTCP4Once` returned. -/
  | dialed (r : Except LegError ℕ)
  | resolved (r : Except LegError Bytes)
  | handshake (conn : ℕ) (e : Option LegError)
  | closed (conn : ℕ)
  /-- A timer of `d`, unless the stack closes before. -/
  | slept (d : Int64)
  /-- `dialTLSOnce` returned. -/
  | attempted (e : Option DialError)

structure DialWorld where
  /-- `net.ParseIP` -/
  parseIP : Bytes → Option Bytes
  resolveA : List DialEvent → Bytes → Bytes → Int64 → Except LegError Bytes
  dialTCP4Once : List DialEvent → Bytes → UInt16 → Int64 → Except LegError ℕ
  newRootCAs : Option LegError
  handshake : List DialEvent → ℕ → Option LegError

def dialRetrySleep (d : Int64) (log : List DialEvent) : List DialEvent :=
  if d ≤ 0 then log else log ++ [.slept d]

/-- A call of `dialTCP4Once`. -/
def DialWorld.dialOnce (w : DialWorld) (dst : Bytes) (port : UInt16) (timeout : Int64)
    (log : List DialEvent) : List DialEvent × Except DialError ℕ :=
  (log ++ [.dialed (w.dialTCP4Once log dst port timeout)],
    (w.dialTCP4Once log dst port timeout).mapError .leg)

/-- The error of the loop; one attempt has its own. -/
def DialError.ofGaveUp (attempts : ℤ) : GaveUp DialError → DialError
  | .fatal e => e
  | .exhausted e => if attempts = 1 then e else .exhausted attempts e

namespace DialSettings

variable (s : DialSettings) (w : DialWorld)

/-- The body that both calls share. -/
def withRetry (once : List DialEvent → List DialEvent × Except DialError ℕ) (attempts : ℤ)
    (baseDelay : Int64) (log : List DialEvent) : List DialEvent × Except DialError ℕ :=
  let attempts := s.dialAttemptsOrDefault attempts
  let baseDelay := s.dialBaseDelayOrDefault baseDelay
  let o := retry isRetryableDialError dialRetrySleep (fun delay => delay * 2) once (attempts - 1).toNat
    baseDelay log
  (o.1, o.2.mapError (.ofGaveUp attempts))

def dialTCP4WithRetry (dst : Bytes) (port : UInt16) (timeout : Int64) (attempts : ℤ) (baseDelay : Int64)
    (log : List DialEvent) : List DialEvent × Except DialError ℕ :=
  s.withRetry (w.dialOnce dst port timeout) attempts baseDelay log

def dialTCP4 (dst : Bytes) (port : UInt16) (timeout : Int64) (log : List DialEvent) :
    List DialEvent × Except DialError ℕ :=
  s.dialTCP4WithRetry w dst port timeout s.defaultDialAttempts s.defaultDialBaseDelay log

/-- The address of the host, by itself or from the resolver. -/
def resolve (host : Bytes) (dnsServer : Option Bytes) (timeout : Int64) (log : List DialEvent) :
    List DialEvent × Except LegError Bytes :=
  match w.parseIP host with
  | some parsed =>
    match to4 parsed with
    | none => (log, .error (.sentinel .tcp4InvalidAddr))
    | some ip4 => (log, .ok ip4)
  | none =>
    match dnsServer with
    | none => (log, .error (.sentinel .dnsInvalidServer))
    | some server =>
      (log ++ [.resolved (w.resolveA log host server timeout)], w.resolveA log host server timeout)

def newTLSConfig (serverName : Bytes) : Option LegError :=
  if serverName = [] then some (.sentinel .tlsNoServerName) else w.newRootCAs

/-- The part behind the dial. -/
def secure (host : Bytes) (conn : ℕ) (log : List DialEvent) : List DialEvent × Except DialError ℕ :=
  match newTLSConfig w host with
  | some e => (log ++ [.closed conn], .error (.leg e))
  | none =>
    match w.handshake log conn with
    | some e => (log ++ [.handshake conn (some e), .closed conn], .error (.leg e))
    | none => (log ++ [.handshake conn none], .ok conn)

def dialTLSOnce (host : Bytes) (port : UInt16) (dnsServer : Option Bytes) (timeout : Int64)
    (log : List DialEvent) : List DialEvent × Except DialError ℕ :=
  if host = [] then (log, .error (.leg (.sentinel .tlsNoServerName)))
  else
    let timeout := if timeout ≤ 0 then defaultDialTimeout else timeout
    match resolve w host dnsServer timeout log with
    | (log, .error e) => (log, .error (.leg e))
    | (log, .ok ip) =>
      match s.dialTCP4 w ip port timeout log with
      | (log, .error e) => (log, .error e)
      | (log, .ok conn) => secure w host conn log

/-- An attempt, with its result in the log. -/
def tlsAttempt (host : Bytes) (port : UInt16) (dnsServer : Option Bytes) (timeout : Int64)
    (log : List DialEvent) : List DialEvent × Except DialError ℕ :=
  let o := s.dialTLSOnce w host port dnsServer timeout log
  (o.1 ++ [.attempted (errorOf o.2)], o.2)

def dialTLSWithRetry (host : Bytes) (port : UInt16) (dnsServer : Option Bytes) (timeout : Int64)
    (attempts : ℤ) (baseDelay : Int64) (log : List DialEvent) : List DialEvent × Except DialError ℕ :=
  s.withRetry (s.tlsAttempt w host port dnsServer timeout) attempts baseDelay log

end DialSettings

/-! ## The log -/

/-- The results of `dialTCP4Once`. -/
def tcpAttempts (log : List DialEvent) : List (Option DialError) :=
  log.filterMap fun
    | .dialed r => some ((errorOf r).map .leg)
    | _ => none

/-- The results of `dialTLSOnce`. -/
def tlsAttempts (log : List DialEvent) : List (Option DialError) :=
  log.filterMap fun
    | .attempted e => some e
    | _ => none

def sleeps (log : List DialEvent) : List Int64 :=
  log.filterMap fun
    | .slept d => some d
    | _ => none

/-- What the caller asked for: at most `k` dials, no attempt after a success or an error that is not
retryable, the pauses in between, and with one attempt its own error. -/
structure BudgetKept (attempts : List (Option DialError)) (k : ℤ) (base : Int64)
    (o : List DialEvent × Except DialError ℕ) : Prop where
  dials : ((tcpAttempts o.1).length : ℤ) ≤ k
  stops : ∀ a ∈ attempts.dropLast, ∃ e, a = some e ∧ isRetryableDialError e = true
  sleeps : (sleeps o.1).map Int64.toInt = (List.range (attempts.length - 1)).map fun i => base.toInt * 2 ^ i
  single : k = 1 → attempts = [errorOf o.2] ∧ ∀ err, o.2 = .error err → ∃ e, err = .leg e

/-- The last pause is a `time.Duration`. -/
def NoOverflow (base : Int64) (k : ℤ) : Prop := base.toInt * 2 ^ (k.toNat - 2) < 2 ^ 63

section
variable (log more : List DialEvent)

@[simp] theorem tcpAttempts_append : tcpAttempts (log ++ more) = tcpAttempts log ++ tcpAttempts more :=
  List.filterMap_append ..

@[simp] theorem tlsAttempts_append : tlsAttempts (log ++ more) = tlsAttempts log ++ tlsAttempts more :=
  List.filterMap_append ..

@[simp] theorem sleeps_append : sleeps (log ++ more) = sleeps log ++ sleeps more :=
  List.filterMap_append ..

end

/-- The pause that a call of `dialRetrySleep` makes. -/
def shownSleep (d : Int64) : List Int64 := if d ≤ 0 then [] else [d]

theorem dialRetrySleep_eq (d : Int64) (log : List DialEvent) :
    dialRetrySleep d log = log ++ (shownSleep d).map .slept := by
  unfold dialRetrySleep shownSleep
  split_ifs
  · exact (List.append_nil _).symm
  · rfl

section
variable (d : Int64) (log : List DialEvent)

@[simp] theorem tcpAttempts_sleep : tcpAttempts (dialRetrySleep d log) = tcpAttempts log := by
  simp [dialRetrySleep_eq, tcpAttempts, List.filterMap_map]

@[simp] theorem tlsAttempts_sleep : tlsAttempts (dialRetrySleep d log) = tlsAttempts log := by
  simp [dialRetrySleep_eq, tlsAttempts, List.filterMap_map]

theorem sleeps_sleep : sleeps (dialRetrySleep d log) = sleeps log ++ shownSleep d := by
  simp [dialRetrySleep_eq, sleeps, List.filterMap_map]

end

theorem errorOf_mapError {ε ε' α : Type} (f : ε → ε') (r : Except ε α) :
    errorOf (r.mapError f) = (errorOf r).map f := by
  cases r <;> rfl

theorem records_dialOnce (w : DialWorld) (dst : Bytes) (port : UInt16) (timeout : Int64) :
    Records tcpAttempts sleeps dialRetrySleep shownSleep (w.dialOnce dst port timeout) where
  result log := by
    rw [DialWorld.dialOnce, errorOf_mapError, tcpAttempts_append]
    rfl
  unpaused log := by
    rw [DialWorld.dialOnce, sleeps_append]
    exact List.append_nil _
  kept := tcpAttempts_sleep
  paused := sleeps_sleep

variable {log : List DialEvent} {port : UInt16} {timeout : Int64} {w : DialWorld}

theorem dialOnce_error {dst : Bytes} {err : DialError}
    (h : (w.dialOnce dst port timeout log).2 = .error err) : ∃ e, err = .leg e := by
  simp only [DialWorld.dialOnce] at h
  generalize w.dialTCP4Once log dst port timeout = r at h
  cases r with
  | ok conn => cases h
  | error e => exact ⟨e, (Except.error.inj h).symm⟩

/-! ## Pauses -/

theorem toInt_double {b : Int64} (hpos : 0 < b.toInt) (h : b.toInt * 2 < 2 ^ 63) : (b * 2).toInt = b.toInt * 2 := by
  have h2 : (2 : Int64).toInt = 2 := rfl
  rw [Int64.toInt_mul, h2, Int.bmod_eq_of_le (by omega) (by omega)]

/-- **The pauses**, as long as they do not overflow. -/
theorem toInt_doublings (n : ℕ) : ∀ {b : Int64}, 0 < b.toInt → b.toInt * 2 ^ (n - 1) < 2 ^ 63 →
    (List.iterate (fun delay => delay * 2) b n).flatMap shownSleep = List.iterate (fun delay => delay * 2) b n ∧
      (List.iterate (fun delay => delay * 2) b n).map Int64.toInt =
        (List.range n).map fun i => b.toInt * 2 ^ i := by
  induction n with
  | zero => exact fun _ _ => ⟨rfl, rfl⟩
  | succ n ih =>
    intro b hpos hlt
    have hshown : shownSleep b = [b] := by
      have : ¬ b ≤ 0 := by
        rw [Int64.le_iff_toInt_le]
        exact not_le.mpr hpos
      rw [shownSleep, if_neg this]
    cases n with
    | zero => exact ⟨by simp [List.iterate, hshown], by simp [List.iterate]⟩
    | succ n =>
      have hpow : b.toInt * 2 ≤ b.toInt * 2 ^ (n + 1) := by
        have h1 : (2 : ℤ) ^ 1 ≤ 2 ^ (n + 1) := pow_le_pow_right₀ (by decide) (by omega)
        exact mul_le_mul_of_nonneg_left (by simpa using h1) hpos.le
      have hdouble := toInt_double hpos (lt_of_le_of_lt hpow (by simpa using hlt))
      obtain ⟨hrest, hints⟩ := ih (b := b * 2) (by omega) (by
        rw [hdouble]
        simpa [pow_succ, mul_assoc, mul_comm] using hlt)
      constructor
      · rw [List.iterate, List.flatMap_cons, hshown, hrest]
        rfl
      · rw [List.iterate, List.map_cons, hints, hdouble, List.range_succ_eq_map (n := n + 1), List.map_cons,
          List.map_map]
        rw [pow_zero, mul_one, List.cons.injEq]
        refine ⟨rfl, List.map_congr_left fun i _ => ?_⟩
        rw [Function.comp, Nat.succ_eq_add_one, pow_succ]
        ring

/-! ## The two calls -/

variable {k : ℤ}

namespace DialSettings

variable (s : DialSettings) (w : DialWorld)

theorem dialBaseDelayOrDefault_pos (d : Int64) : 0 < (s.dialBaseDelayOrDefault d).toInt := by
  unfold dialBaseDelayOrDefault
  split_ifs with h₁ h₂
  · exact Int64.lt_iff_toInt_lt.mp h₂
  · decide
  · rw [Int64.le_iff_toInt_le] at h₁
    exact not_le.mp h₁

theorem dialAttemptsOrDefault_of_pos (hk : 1 ≤ k) : s.dialAttemptsOrDefault k = k :=
  if_neg (by omega)

section
variable {s} {once : List DialEvent → List DialEvent × Except DialError ℕ}
  {attempts : List DialEvent → List (Option DialError)}
variable {pauses : List DialEvent → List Int64} {shown : Int64 → List Int64}

theorem withRetry_tries (h : Records attempts pauses dialRetrySleep shown once) (s : DialSettings) (k : ℤ)
    (baseDelay : Int64) (log : List DialEvent) :
    ∃ rs ds, Tries isRetryableDialError (fun delay => delay * 2) (s.dialAttemptsOrDefault k - 1).toNat
        (s.dialBaseDelayOrDefault baseDelay) rs ds ∧
      attempts (s.withRetry once k baseDelay log).1 = attempts log ++ rs ∧
      pauses (s.withRetry once k baseDelay log).1 = pauses log ++ ds.flatMap shown := by
  obtain ⟨rs, ds, ht, hrs, hds, -⟩ := retry_tries isRetryableDialError (fun delay => delay * 2) h
    (s.dialAttemptsOrDefault k - 1).toNat (s.dialBaseDelayOrDefault baseDelay) log
  exact ⟨rs, ds, ht, hrs, hds⟩

theorem withRetry_invariant {I : List DialEvent → Prop} (honce : ∀ log, I log → I (once log).1)
    (hsleep : ∀ d log, I log → I (dialRetrySleep d log)) (s : DialSettings) (k : ℤ) (baseDelay : Int64)
    (h : I log) : I (s.withRetry once k baseDelay log).1 :=
  retry_invariant honce hsleep _ _ log h

/-- If every attempt fails with a retryable error, all are made. -/
theorem length_attempts_of_error (h : Records attempts pauses dialRetrySleep shown once)
    (he : ∀ log, ∃ e, errorOf (once log).2 = some e ∧ isRetryableDialError e = true) (s : DialSettings) (k : ℤ)
    (baseDelay : Int64) (log : List DialEvent) :
    (attempts (s.withRetry once k baseDelay log).1).length =
      (attempts log).length + ((s.dialAttemptsOrDefault k - 1).toNat + 1) := by
  obtain ⟨rs, ds, ht, hrs, -⟩ := withRetry_tries h s k baseDelay log
  obtain ⟨rs', hrs', hretry⟩ : ∃ rs', attempts (s.withRetry once k baseDelay log).1 = attempts log ++ rs' ∧
      ∀ a ∈ rs', ∃ e, a = some e ∧ isRetryableDialError e = true := by
    refine withRetry_invariant (I := fun log' => ∃ rs', attempts log' = attempts log ++ rs' ∧
      ∀ a ∈ rs', ∃ e, a = some e ∧ isRetryableDialError e = true) ?_ ?_ s k baseDelay ⟨[], by simp⟩
    · rintro log' ⟨rs', hrs', hretry⟩
      refine ⟨rs' ++ [errorOf (once log').2], by rw [h.result, hrs', List.append_assoc], ?_⟩
      exact List.forall_mem_append.mpr ⟨hretry, List.forall_mem_singleton.mpr (he log')⟩
    · rintro d log' ⟨rs', hrs', hretry⟩
      exact ⟨rs', by rw [h.kept, hrs'], hretry⟩
  rw [hrs, List.append_cancel_left_eq] at hrs'
  subst hrs'
  rw [hrs, List.length_append, ht.length_eq_of_retryable hretry]

/-- The error then says how many there were. -/
theorem withRetry_of_error {e : DialError} (h : ∀ log, (once log).2 = .error e)
    (he : isRetryableDialError e = true) (s : DialSettings) (k : ℤ) (baseDelay : Int64) (log : List DialEvent) :
    (s.withRetry once k baseDelay log).2 = .error (.ofGaveUp (s.dialAttemptsOrDefault k) (.exhausted e)) := by
  unfold withRetry
  dsimp only
  rw [retry_of_error h he]
  rfl

theorem withRetry_one (s : DialSettings) (once : List DialEvent → List DialEvent × Except DialError ℕ)
    (baseDelay : Int64) (log : List DialEvent) : s.withRetry once 1 baseDelay log = once log := by
  unfold withRetry
  simp only [s.dialAttemptsOrDefault_of_pos le_rfl]
  change (let o := retry isRetryableDialError dialRetrySleep _ once 0 _ log
    (o.1, o.2.mapError (.ofGaveUp 1))) = once log
  rw [retry]
  generalize once log = o
  obtain ⟨log', r⟩ := o
  cases r with
  | ok conn => rfl
  | error e => cases he : isRetryableDialError e <;> simp [Except.mapError, DialError.ofGaveUp, he]

/-- **A call keeps its budget** if no pause overflows, an attempt dials once and fails with the error of
a leg. -/
theorem budgetKept_withRetry (h : Records attempts sleeps dialRetrySleep shownSleep once)
    (ha : attempts [] = []) (hk : 1 ≤ k) {baseDelay : Int64}
    (hno : NoOverflow (s.dialBaseDelayOrDefault baseDelay) k)
    (hdials : (tcpAttempts (s.withRetry once k baseDelay []).1).length ≤ (attempts (s.withRetry once k baseDelay []).1).length)
    (hleg : ∀ log err, (once log).2 = .error err → ∃ e, err = .leg e) :
    BudgetKept (attempts (s.withRetry once k baseDelay []).1) k (s.dialBaseDelayOrDefault baseDelay)
      (s.withRetry once k baseDelay []) := by
  obtain ⟨rs, ds, ht, hrs, hds⟩ := withRetry_tries h s k baseDelay []
  rw [s.dialAttemptsOrDefault_of_pos hk] at ht
  rw [ha, List.nil_append] at hrs
  rw [hrs] at hdials ⊢
  have hle := ht.length_le
  have hlen := ht.length_eq
  constructor
  · omega
  · exact fun a ha => ht.retryable_of_mem_dropLast ha
  · have hmono : (s.dialBaseDelayOrDefault baseDelay).toInt * 2 ^ (ds.length - 1) ≤
        (s.dialBaseDelayOrDefault baseDelay).toInt * 2 ^ (k.toNat - 2) := by
      refine mul_le_mul_of_nonneg_left ?_ (s.dialBaseDelayOrDefault_pos baseDelay).le
      exact pow_le_pow_right₀ (by decide) (by omega)
    obtain ⟨hshown, hints⟩ := toInt_doublings ds.length (s.dialBaseDelayOrDefault_pos baseDelay)
      (lt_of_le_of_lt hmono hno)
    have hnil : sleeps [] = [] := rfl
    rw [hds, hnil, List.nil_append, ht.pauses_eq, hshown, hints, hlen, Nat.add_sub_cancel]
  · rintro rfl
    rw [← hrs, withRetry_one, h.result, ha]
    exact ⟨rfl, fun err herr => hleg [] err herr⟩

end

end DialSettings

/-- If all attempts fail with retryable errors and the pauses are kept, none overflows. -/
theorem noOverflow_of_sleeps {attempts : List (Option DialError)} {base : Int64}
    {o : List DialEvent × Except DialError ℕ} (h : BudgetKept attempts k base o)
    (hlen : attempts.length = (k - 1).toNat + 1) : NoOverflow base k := by
  unfold NoOverflow
  rcases Nat.lt_or_ge k.toNat 2 with hk | hk
  · rw [Nat.sub_eq_zero_of_le hk.le, pow_zero, mul_one]
    exact base.toInt_lt
  · have hmem : base.toInt * 2 ^ (k.toNat - 2) ∈ (sleeps o.1).map Int64.toInt := by
      rw [h.sleeps]
      exact List.mem_map.mpr ⟨k.toNat - 2, List.mem_range.mpr (by omega), rfl⟩
    obtain ⟨d, -, hd⟩ := List.mem_map.mp hmem
    rw [← hd]
    exact d.toInt_lt

/-! ### TLS -/

/-- Events that are no dials, attempts or pauses. -/
structure Inert (seg : List DialEvent) : Prop where
  tcp : tcpAttempts seg = []
  tls : tlsAttempts seg = []
  sleeps : sleeps seg = []

theorem inert_nil : Inert [] := ⟨rfl, rfl, rfl⟩

namespace DialSettings

/-- What an attempt can do. -/
inductive Attempt (s : DialSettings) (w : DialWorld) (log : List DialEvent) :
    List DialEvent × Except DialError ℕ → Prop
  /-- It does not get as far as the dial. -/
  | undialed {pre : List DialEvent} {e : LegError} (hpre : Inert pre) :
      Attempt s w log (log ++ pre, .error (.leg e))
  | failed {pre : List DialEvent} {ip : Bytes} {port : UInt16} {t : Int64} {err : DialError} (hpre : Inert pre)
      (hd : (s.dialTCP4 w ip port t (log ++ pre)).2 = .error err) :
      Attempt s w log ((s.dialTCP4 w ip port t (log ++ pre)).1, .error err)
  | dialed {pre post : List DialEvent} {ip : Bytes} {port : UInt16} {t : Int64} {conn : ℕ}
      {r : Except DialError ℕ} (hpre : Inert pre) (hd : (s.dialTCP4 w ip port t (log ++ pre)).2 = .ok conn)
      (hpost : Inert post) (hr : ∀ err, r = .error err → ∃ e, err = .leg e) :
      Attempt s w log ((s.dialTCP4 w ip port t (log ++ pre)).1 ++ post, r)

section
variable (s : DialSettings) (w : DialWorld)

theorem resolve_inert (host : Bytes) (dnsServer : Option Bytes) (timeout : Int64) (log : List DialEvent) :
    ∃ pre, Inert pre ∧ (resolve w host dnsServer timeout log).1 = log ++ pre := by
  unfold resolve
  split
  · split
    · exact ⟨[], inert_nil, (List.append_nil _).symm⟩
    · exact ⟨[], inert_nil, (List.append_nil _).symm⟩
  · split
    · exact ⟨[], inert_nil, (List.append_nil _).symm⟩
    · exact ⟨_, ⟨rfl, rfl, rfl⟩, rfl⟩

theorem secure_inert (host : Bytes) (conn : ℕ) (log : List DialEvent) :
    ∃ post, Inert post ∧ (secure w host conn log).1 = log ++ post ∧
      ∀ err, (secure w host conn log).2 = .error err → ∃ e, err = .leg e := by
  unfold secure
  split
  next e _ =>
    refine ⟨_, ⟨rfl, rfl, rfl⟩, rfl, ?_⟩
    rintro _ ⟨⟩
    exact ⟨e, rfl⟩
  next =>
    split
    next e _ =>
      refine ⟨_, ⟨rfl, rfl, rfl⟩, rfl, ?_⟩
      rintro _ ⟨⟩
      exact ⟨e, rfl⟩
    next =>
      refine ⟨_, ⟨rfl, rfl, rfl⟩, rfl, ?_⟩
      rintro _ ⟨⟩

variable (host : Bytes) (port : UInt16) (dnsServer : Option Bytes) (timeout : Int64) (log : List DialEvent)

/-- **An attempt** is one of these. -/
theorem dialTLSOnce_attempt : Attempt s w log (s.dialTLSOnce w host port dnsServer timeout log) := by
  unfold dialTLSOnce
  by_cases hhost : host = []
  · rw [if_pos hhost]
    have hnone : Attempt s w log (log ++ [], .error (.leg (.sentinel .tlsNoServerName))) := .undialed inert_nil
    rwa [List.append_nil] at hnone
  · rw [if_neg hhost]
    dsimp only
    generalize (if timeout ≤ 0 then defaultDialTimeout else timeout) = t
    obtain ⟨pre, hpre, hlog⟩ := resolve_inert w host dnsServer t log
    generalize resolve w host dnsServer t log = o at hlog
    obtain ⟨log₁, r⟩ := o
    obtain rfl : log₁ = log ++ pre := hlog
    cases r with
    | error e => exact .undialed hpre
    | ok ip =>
      dsimp only
      cases hd : s.dialTCP4 w ip port t (log ++ pre) with
      | mk log₂ r =>
        have h₁ : (s.dialTCP4 w ip port t (log ++ pre)).1 = log₂ := by rw [hd]
        have h₂ : (s.dialTCP4 w ip port t (log ++ pre)).2 = r := by rw [hd]
        cases r with
        | error err =>
          have hfail := Attempt.failed hpre h₂
          rwa [h₁] at hfail
        | ok conn =>
          dsimp only
          obtain ⟨post, hpost, hlog, hr⟩ := secure_inert w host conn log₂
          have hdone := Attempt.dialed hpre h₂ hpost hr
          rwa [h₁, ← hlog] at hdone

end

section
variable {s : DialSettings} {w : DialWorld}

theorem tlsAttempts_dialTCP4 (ip : Bytes) (port : UInt16) (t : Int64) (log : List DialEvent) :
    tlsAttempts (s.dialTCP4 w ip port t log).1 = tlsAttempts log := by
  refine withRetry_invariant (I := fun log' => tlsAttempts log' = tlsAttempts log) ?_ ?_ s _ _ rfl
  · intro log' h
    rw [DialWorld.dialOnce, tlsAttempts_append, h]
    exact List.append_nil _
  · intro d log' h
    rw [tlsAttempts_sleep, h]

variable (host : Bytes) (port : UInt16) (dnsServer : Option Bytes) (timeout : Int64) (log : List DialEvent)

theorem tlsAttempts_tlsAttempt :
    tlsAttempts (s.tlsAttempt w host port dnsServer timeout log).1 =
      tlsAttempts log ++ [errorOf (s.tlsAttempt w host port dnsServer timeout log).2] := by
  have hkept : tlsAttempts (s.dialTLSOnce w host port dnsServer timeout log).1 = tlsAttempts log := by
    have hatt := s.dialTLSOnce_attempt w host port dnsServer timeout log
    generalize s.dialTLSOnce w host port dnsServer timeout log = o at hatt
    cases hatt with
    | undialed hpre => simp [hpre.tls]
    | failed hpre _ => simp [tlsAttempts_dialTCP4, hpre.tls]
    | dialed hpre _ hpost _ => simp [tlsAttempts_dialTCP4, hpre.tls, hpost.tls]
  rw [tlsAttempt, tlsAttempts_append, hkept]
  rfl

/-- An attempt dials in `dialTLSOnce` only. -/
theorem tcpAttempts_tlsAttempt :
    tcpAttempts (s.tlsAttempt w host port dnsServer timeout log).1 =
      tcpAttempts (s.dialTLSOnce w host port dnsServer timeout log).1 := by
  rw [tlsAttempt, tcpAttempts_append]
  exact List.append_nil _

theorem dialTCP4_one (hone : s.defaultDialAttempts = 1) (ip : Bytes) (port : UInt16) (t : Int64)
    (log : List DialEvent) : s.dialTCP4 w ip port t log = w.dialOnce ip port t log := by
  rw [dialTCP4, dialTCP4WithRetry, hone, withRetry_one]

theorem records_tlsAttempt (hone : s.defaultDialAttempts = 1) :
    Records tlsAttempts sleeps dialRetrySleep shownSleep (s.tlsAttempt w host port dnsServer timeout) where
  result log := tlsAttempts_tlsAttempt host port dnsServer timeout log
  unpaused log := by
    have hkept : sleeps (s.dialTLSOnce w host port dnsServer timeout log).1 = sleeps log := by
      have hatt := s.dialTLSOnce_attempt w host port dnsServer timeout log
      have hdial := fun ip port t => (records_dialOnce w ip port t).unpaused
      generalize s.dialTLSOnce w host port dnsServer timeout log = o at hatt
      cases hatt with
      | undialed hpre => simp [hpre.sleeps]
      | failed hpre _ => simp [dialTCP4_one hone, hdial, hpre.sleeps]
      | dialed hpre _ hpost _ => simp [dialTCP4_one hone, hdial, hpre.sleeps, hpost.sleeps]
    rw [tlsAttempt, sleeps_append, hkept]
    exact List.append_nil _
  kept := tlsAttempts_sleep
  paused := sleeps_sleep

/-- With one attempt to dial, an attempt of the TLS loop dials at most once, and fails with the error of a
leg. -/
theorem dialTLSOnce_one (hone : s.defaultDialAttempts = 1) :
    (tcpAttempts (s.dialTLSOnce w host port dnsServer timeout log).1).length ≤ (tcpAttempts log).length + 1 ∧
      ∀ err, (s.dialTLSOnce w host port dnsServer timeout log).2 = .error err → ∃ e, err = .leg e := by
  have hatt := s.dialTLSOnce_attempt w host port dnsServer timeout log
  have hdial := fun ip port t => (records_dialOnce w ip port t).result
  generalize s.dialTLSOnce w host port dnsServer timeout log = o at hatt
  cases hatt with
  | @undialed _ e hpre =>
    refine ⟨by simp [hpre.tcp], ?_⟩
    rintro _ ⟨⟩
    exact ⟨e, rfl⟩
  | failed hpre hd =>
    refine ⟨by simp [dialTCP4_one hone, hdial, hpre.tcp], ?_⟩
    rintro _ ⟨⟩
    rw [dialTCP4_one hone] at hd
    exact dialOnce_error hd
  | dialed hpre hd hpost hr =>
    exact ⟨by simp [dialTCP4_one hone, hdial, hpre.tcp, hpost.tcp], hr⟩

end

end DialSettings

/-! ### Two worlds -/

def timeoutError : LegError := .other (str "ministack: TCP operation timed out")

/-- Nobody answers a SYN. -/
def deadWorld : DialWorld where
  parseIP _ := none
  resolveA _ _ _ _ := .ok [10, 0, 2, 2]
  dialTCP4Once _ _ _ _ := .error timeoutError
  newRootCAs := none
  handshake _ _ := none

/-- The peer closes the connection during the handshake. -/
def rudeWorld : DialWorld where
  parseIP _ := none
  resolveA _ _ _ _ := .ok [10, 0, 2, 2]
  dialTCP4Once _ _ _ _ := .ok 0
  newRootCAs := none
  handshake _ _ := some (.other (str "EOF"))

/-- What is contained in a text has letters of the text only. -/
theorem mem_of_contains {text sub : Bytes} (h : contains text sub = true) {c : UInt8} (hc : c ∈ sub) :
    c ∈ text := by
  unfold contains at h
  fun_induction index text sub with
  | case1 text hp => exact (hasPrefix_iff.mp hp).subset hc
  | case2 => simp at h
  | case3 a t _ ih => exact List.mem_cons_of_mem _ (ih (by simpa using h))

theorem isRetryable_timeout : isRetryableDialError (.leg timeoutError) = true := by decide +kernel

/-- The text of the wrapped error has no `f`, which both texts about certificates have. -/
theorem isRetryable_exhausted (n : ℤ) : isRetryableDialError (.exhausted n (.leg timeoutError)) = true := by
  have hdigits : (102 : UInt8) ∉ dialRetryItoa n := by
    intro h
    rcases List.mem_append.mp h with hsign | hdigit
    · split_ifs at hsign
      · exact absurd hsign (by decide)
      · cases hsign
    · have := (digit_of_mem_formatUint hdigit).2
      exact absurd this (by decide)
  have hf : (102 : UInt8) ∉ (DialError.exhausted n (.leg timeoutError)).text := by
    simp only [DialError.text, List.mem_append, not_or]
    exact ⟨⟨⟨by decide, hdigits⟩, by decide⟩, by decide⟩
  have htls : contains (DialError.exhausted n (.leg timeoutError)).text
      (str "tls: failed to verify certificate") = false := by
    by_contra h
    exact hf (mem_of_contains (by simpa using h) (by decide))
  have hx509 : contains (DialError.exhausted n (.leg timeoutError)).text (str "x509: certificate") = false := by
    by_contra h
    exact hf (mem_of_contains (by simpa using h) (by decide))
  unfold isRetryableDialError
  rw [htls, hx509]
  rfl

namespace DialSettings

variable (s : DialSettings)

/-- The dial of the TLS loop in a dead world: it fails, having dialed as often as the stack says. -/
theorem dialTCP4_dead (ip : Bytes) (port : UInt16) (t : Int64) (log : List DialEvent) :
    (∃ err, (s.dialTCP4 deadWorld ip port t log).2 = .error err ∧ isRetryableDialError err = true) ∧
      (tcpAttempts (s.dialTCP4 deadWorld ip port t log).1).length = (tcpAttempts log).length +
        ((s.dialAttemptsOrDefault s.defaultDialAttempts - 1).toNat + 1) := by
  constructor
  · refine ⟨_, withRetry_of_error (fun _ => rfl) isRetryable_timeout s _ _ log, ?_⟩
    unfold DialError.ofGaveUp
    split_ifs
    · exact isRetryable_timeout
    · exact isRetryable_exhausted _
  · exact length_attempts_of_error (records_dialOnce deadWorld ip port t)
      (fun _ => ⟨_, rfl, isRetryable_timeout⟩) s _ _ log

theorem dialTCP4_rude (ip : Bytes) (port : UInt16) (t : Int64) (log : List DialEvent) :
    s.dialTCP4 rudeWorld ip port t log = (log ++ [.dialed (.ok 0)], .ok 0) := by
  have hok : rudeWorld.dialOnce ip port t log = (log ++ [.dialed (.ok 0)], .ok 0) := rfl
  rw [dialTCP4, dialTCP4WithRetry, withRetry, retry_of_ok hok]
  rfl

theorem records_tlsAttempt_results (w : DialWorld) (host : Bytes) (port : UInt16) (dnsServer : Option Bytes)
    (timeout : Int64) : Records tlsAttempts (fun _ => []) dialRetrySleep (fun _ => [])
      (s.tlsAttempt w host port dnsServer timeout) where
  result log := tlsAttempts_tlsAttempt host port dnsServer timeout log
  unpaused _ := rfl
  kept := tlsAttempts_sleep
  paused _ _ := rfl

section
variable (host : Bytes) (port : UInt16) (server : Bytes) (timeout : Int64) (log : List DialEvent)

theorem dialTLSOnce_resolved (hhost : host ≠ []) {ip : Bytes}
    (hw : ∀ t, resolve w host (some server) t log = (log ++ [.resolved (.ok ip)], .ok ip)) :
    ∃ t, s.dialTLSOnce w host port (some server) timeout log =
      match s.dialTCP4 w ip port t (log ++ [.resolved (.ok ip)]) with
      | (log, .error e) => (log, .error e)
      | (log, .ok conn) => secure w host conn log := by
  refine ⟨if timeout ≤ 0 then defaultDialTimeout else timeout, ?_⟩
  rw [dialTLSOnce, if_neg hhost]
  dsimp only
  rw [hw]

theorem dialTLSOnce_dead (hhost : host ≠ []) :
    (∃ err, (s.dialTLSOnce deadWorld host port (some server) timeout log).2 = .error err ∧
        isRetryableDialError err = true) ∧
      (tcpAttempts (s.dialTLSOnce deadWorld host port (some server) timeout log).1).length =
        (tcpAttempts log).length + ((s.dialAttemptsOrDefault s.defaultDialAttempts - 1).toNat + 1) := by
  obtain ⟨t, ht⟩ := s.dialTLSOnce_resolved host port server timeout log (w := deadWorld) hhost (fun _ => rfl)
  obtain ⟨⟨err, herr, hretry⟩, hlen⟩ := s.dialTCP4_dead [10, 0, 2, 2] port t (log ++ [.resolved (.ok [10, 0, 2, 2])])
  rw [ht]
  generalize s.dialTCP4 deadWorld [10, 0, 2, 2] port t (log ++ [.resolved (.ok [10, 0, 2, 2])]) = o at herr hlen
  obtain ⟨log', r⟩ := o
  obtain rfl : r = .error err := herr
  refine ⟨⟨err, rfl, hretry⟩, ?_⟩
  have hnil : tcpAttempts [.resolved (.ok [10, 0, 2, 2])] = [] := rfl
  rwa [tcpAttempts_append, hnil, List.append_nil] at hlen

theorem dialTLSOnce_rude (hhost : host ≠ []) :
    ∃ err, (s.dialTLSOnce rudeWorld host port (some server) timeout log).2 = .error err ∧
      isRetryableDialError err = true := by
  obtain ⟨t, ht⟩ := s.dialTLSOnce_resolved host port server timeout log (w := rudeWorld) hhost (fun _ => rfl)
  refine ⟨.leg (.other (str "EOF")), ?_, by decide +kernel⟩
  rw [ht, dialTCP4_rude]
  dsimp only
  rw [secure, newTLSConfig, if_neg hhost]
  rfl

end

theorem two_le_dialAttemptsOrDefault (hone : s.defaultDialAttempts ≠ 1) :
    2 ≤ s.dialAttemptsOrDefault s.defaultDialAttempts := by
  unfold dialAttemptsOrDefault defaultDialAttemptsFallback
  split_ifs <;> omega

section
variable {s} {k : ℤ} (hk : 1 ≤ k) {baseDelay : Int64}
include hk

variable {host : Bytes}

theorem length_tlsAttempts {dnsServer : Option Bytes}
    (h : ∀ log, ∃ err, (s.dialTLSOnce w host port dnsServer timeout log).2 = .error err ∧ isRetryableDialError err = true) :
    
    (tlsAttempts (s.dialTLSWithRetry w host port dnsServer timeout k baseDelay []).1).length =
      (k - 1).toNat + 1 := by
  have hfail : ∀ log, ∃ err, errorOf (s.tlsAttempt w host port dnsServer timeout log).2 = some err ∧
      isRetryableDialError err = true := by
    intro log
    obtain ⟨err, herr, hretry⟩ := h log
    exact ⟨err, by rw [tlsAttempt, herr]; rfl, hretry⟩
  have hlen := length_attempts_of_error (s.records_tlsAttempt_results w host port dnsServer timeout) hfail
    s k baseDelay []
  rw [s.dialAttemptsOrDefault_of_pos hk] at hlen
  exact hlen.trans (Nat.zero_add _)

theorem budgetKept_tcp (hno : NoOverflow (s.dialBaseDelayOrDefault baseDelay) k) (w : DialWorld) (dst : Bytes)
    (port : UInt16) (timeout : Int64) :
    BudgetKept (tcpAttempts (s.dialTCP4WithRetry w dst port timeout k baseDelay []).1) k
      (s.dialBaseDelayOrDefault baseDelay) (s.dialTCP4WithRetry w dst port timeout k baseDelay []) := by
  refine budgetKept_withRetry (records_dialOnce w dst port timeout) rfl hk hno le_rfl ?_
  intro log err herr
  exact dialOnce_error herr

theorem noOverflow_of_tcp (h : ∀ w dst port timeout,
    BudgetKept (tcpAttempts (s.dialTCP4WithRetry w dst port timeout k baseDelay []).1) k
      (s.dialBaseDelayOrDefault baseDelay) (s.dialTCP4WithRetry w dst port timeout k baseDelay [])) :
    NoOverflow (s.dialBaseDelayOrDefault baseDelay) k := by
  have hlen := length_attempts_of_error (records_dialOnce deadWorld [] 0 0)
    (fun _ => ⟨_, rfl, isRetryable_timeout⟩) s k baseDelay []
  rw [s.dialAttemptsOrDefault_of_pos hk] at hlen
  exact noOverflow_of_sleeps (h deadWorld [] 0 0) (hlen.trans (Nat.zero_add _))

theorem budgetKept_tls (hone : s.defaultDialAttempts = 1)
    (hno : NoOverflow (s.dialBaseDelayOrDefault baseDelay) k) (w : DialWorld) (host : Bytes) (port : UInt16)
    (dnsServer : Option Bytes) (timeout : Int64) :
    BudgetKept (tlsAttempts (s.dialTLSWithRetry w host port dnsServer timeout k baseDelay []).1) k
      (s.dialBaseDelayOrDefault baseDelay)
      (s.dialTLSWithRetry w host port dnsServer timeout k baseDelay []) := by
  refine budgetKept_withRetry (records_tlsAttempt host port dnsServer timeout hone) rfl hk hno ?_ ?_
  · refine withRetry_invariant (I := fun log => (tcpAttempts log).length ≤ (tlsAttempts log).length) ?_ ?_
      s k baseDelay le_rfl
    · intro log h
      have hdials := (dialTLSOnce_one (w := w) host port dnsServer timeout log hone).1
      rw [tlsAttempts_tlsAttempt, List.length_append, List.length_singleton, tcpAttempts_tlsAttempt]
      omega
    · intro d log h
      rwa [tcpAttempts_sleep, tlsAttempts_sleep]
  · intro log err herr
    exact (dialTLSOnce_one host port dnsServer timeout log hone).2 err herr

theorem noOverflow_of_tls (h : ∀ w host port dnsServer timeout,
    BudgetKept (tlsAttempts (s.dialTLSWithRetry w host port dnsServer timeout k baseDelay []).1) k
      (s.dialBaseDelayOrDefault baseDelay)
      (s.dialTLSWithRetry w host port dnsServer timeout k baseDelay [])) :
    NoOverflow (s.dialBaseDelayOrDefault baseDelay) k := by
  refine noOverflow_of_sleeps (h rudeWorld (str "ghcr.io") 443 (some []) 0) (length_tlsAttempts hk ?_)
  exact fun log => s.dialTLSOnce_rude _ _ _ _ log (by decide)

theorem dials_of_ne_one (hone : s.defaultDialAttempts ≠ 1) (hhost : host ≠ []) (port : UInt16)
    (server : Bytes) (timeout : Int64) :
    k < (tcpAttempts (s.dialTLSWithRetry deadWorld host port (some server) timeout k baseDelay []).1).length := by
  have hfail := fun log => (s.dialTLSOnce_dead host port server timeout log hhost).1
  have htwice : 2 * ((k - 1).toNat + 1) ≤
      (tcpAttempts (s.dialTLSWithRetry deadWorld host port (some server) timeout k baseDelay []).1).length := by
    rw [← length_tlsAttempts hk hfail]
    refine withRetry_invariant (I := fun log => 2 * (tlsAttempts log).length ≤ (tcpAttempts log).length) ?_ ?_
      s k baseDelay le_rfl
    · intro log h
      have hdials := (s.dialTLSOnce_dead host port server timeout log hhost).2
      have hinner := s.two_le_dialAttemptsOrDefault hone
      rw [tlsAttempts_tlsAttempt, List.length_append, List.length_singleton, tcpAttempts_tlsAttempt]
      omega
    · intro d log h
      rwa [tcpAttempts_sleep, tlsAttempts_sleep]
  omega

end

end DialSettings

/-! ## The result -/

open DialSettings in
/-- **The budget** of `DialTCP4WithRetry` is kept in every world exactly when no pause overflows; that of
`DialTLSWithRetry` exactly when, in addition, the stack dials once. -/
theorem retryBudget_iff (s : DialSettings) (k : ℤ) (hk : 1 ≤ k) (baseDelay : Int64) :
    ((∀ w dst port timeout,
        BudgetKept (tcpAttempts (s.dialTCP4WithRetry w dst port timeout k baseDelay []).1) k
          (s.dialBaseDelayOrDefault baseDelay) (s.dialTCP4WithRetry w dst port timeout k baseDelay [])) ↔
      NoOverflow (s.dialBaseDelayOrDefault baseDelay) k) ∧
    ((∀ w host port dnsServer timeout,
        BudgetKept (tlsAttempts (s.dialTLSWithRetry w host port dnsServer timeout k baseDelay []).1) k
          (s.dialBaseDelayOrDefault baseDelay) (s.dialTLSWithRetry w host port dnsServer timeout k baseDelay [])) ↔
      NoOverflow (s.dialBaseDelayOrDefault baseDelay) k ∧ s.defaultDialAttempts = 1) := by
  refine ⟨⟨noOverflow_of_tcp hk, budgetKept_tcp hk⟩, ?_, fun h => budgetKept_tls hk h.2 h.1⟩
  intro h
  refine ⟨noOverflow_of_tls hk h, ?_⟩
  by_contra hone
  have hhost : str "ghcr.io" ≠ [] := by decide
  exact absurd (h deadWorld (str "ghcr.io") 443 (some []) 0).dials
    (not_le.mpr (dials_of_ne_one hk hone hhost 443 [] 0))

/-- A stack whose settings were left at zero does not keep a budget of one. -/
theorem retryBudget_iff_single : (1 : ℤ) ≤ 1 ∧ ¬ ∀ w host port dnsServer timeout,
    BudgetKept (tlsAttempts ((⟨0, 0⟩ : DialSettings).dialTLSWithRetry w host port dnsServer timeout 1 0 []).1) 1
      ((⟨0, 0⟩ : DialSettings).dialBaseDelayOrDefault 0)
      ((⟨0, 0⟩ : DialSettings).dialTLSWithRetry w host port dnsServer timeout 1 0 []) := by
  refine ⟨le_rfl, ?_⟩
  rw [(retryBudget_iff ⟨0, 0⟩ 1 le_rfl 0).2]
  exact fun h => absurd h.2 (by decide)

/-- One attempt of such a stack dials three times, sleeps twice and wraps the error. -/
theorem retryBudget_broken :
    ((⟨0, 0⟩ : DialSettings).dialTLSWithRetry deadWorld (str "ghcr.io") 443 (some []) 0 1 0 []).2 =
        .error (.exhausted 3 (.leg timeoutError)) ∧
      (tcpAttempts ((⟨0, 0⟩ : DialSettings).dialTLSWithRetry deadWorld (str "ghcr.io") 443 (some []) 0 1 0
        []).1).length = 3 ∧
      sleeps ((⟨0, 0⟩ : DialSettings).dialTLSWithRetry deadWorld (str "ghcr.io") 443 (some []) 0 1 0 []).1 =
        [2000000000, 4000000000] := by
  decide +kernel

end TamagoUefi.Net
