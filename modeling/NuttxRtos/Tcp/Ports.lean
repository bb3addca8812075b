import Mathlib.Order.Interval.Finset.Nat
import Mathlib.Tactic.IntervalCases

/-!
# Local TCP ports

`tcp_selectport` and `tcp_ipv4_bind` / `tcp_ipv6_bind` over the table of connections. The two
address families differ in the type of an address and in the wildcard only, so both are
parameters. A local port is kept in network order, the port chosen by a caller is in host order,
and the machine is little-endian.
-/

namespace NuttxRtos.Tcp.Ports

open Function (update update_of_ne update_self)

/-- A `uint16_t` port number, in host or in network order. -/
abbrev Port := BitVec 16

/-- `HTONS` and `NTOHS` of a little-endian machine. -/
def htons (port : Port) : Port := ((port &&& 0x00ff) <<< 8) ||| ((port >>> 8) &&& 0x00ff)

/-- What the port search reads of a connection. All connections of a table are of one address family. -/
structure Conn (A : Type) where
  /-- `tcpstateflags != TCP_CLOSED` -/
  isOpen : Bool
  /-- Network order. -/
  lport : Port
  laddr : A
  /-- `dev != NULL` -/
  bound : Bool
deriving DecidableEq

/-- `g_tcp_connections`, `g_last_tcp_port`, and how often the caller holds the network lock. -/
structure Net (A : Type) (n : ℕ) where
  conns : Fin n → Conn A
  last : Port
  depth : ℕ

inductive Errno where
  | eaddrinuse
  | enetunreach
deriving DecidableEq

section Model

variable {A : Type} [DecidableEq A] (any : A) {n : ℕ}

def Conn.Serves (conn : Conn A) (addr : A) : Prop :=
  conn.isOpen = true ∧ (conn.laddr = addr ∨ conn.laddr = any)

instance (conn : Conn A) (addr : A) : Decidable (conn.Serves any addr) :=
  inferInstanceAs (Decidable (_ ∧ _))

def listener (conns : Fin n → Conn A) (addr : A) (portno : Port) : Option (Fin n) :=
  (List.finRange n).find? fun i => (conns i).lport = portno ∧ (conns i).Serves any addr

/-- `g_last_tcp_port` at the start of a selection, seeded from the system clock. -/
def portBase (last : Port) (ticks : ℕ) : Port :=
  if last = 0 then
    let base := BitVec.ofNat 16 (ticks % 32000)
    if base < 4096 then base + 4096 else base
  else last

/-- `g_last_tcp_port` after one round of the search. -/
def advance (last : Port) : Port := if last + 1 ≥ 32000 then 4096 else last + 1

/-- The do-while loop that looks for a free port, for a number of rounds: the port it returns and
the last port. -/
def search (inUse : Port → Bool) : ℕ → Port → Option (Port × Port)
  | 0, _ => none
  | rounds + 1, last =>
    if inUse (htons (advance last)) then search inUse rounds (advance last)
    else some (last + 1, advance last)

/-- The ports the search tests, 4096 to 31999: with all of them in use it never ends. -/
def ephemeralPorts : ℕ := 27904

/-- `tcp_selectport`, with the last port after it. -/
def selectport (net : Net A n) (addr : A) (portno : Port) (ticks : ℕ) :
    Option (Except Errno Port × Port) :=
  let last := portBase net.last ticks
  if portno = 0 then
    (search (fun port => (listener any net.conns addr port).isSome) ephemeralPorts last).map
      fun found => (.ok found.1, found.2)
  else if (listener any net.conns addr portno).isSome then some (.error .eaddrinuse, last)
  else some (.ok portno, last)

def localDevice (route : A → Bool) (conn : Conn A) : Except Errno (Conn A) :=
  if conn.bound then .ok conn
  else if conn.laddr = any then .ok conn
  else if route conn.laddr then .ok { conn with bound := true }
  else .error .enetunreach

def netLock (net : Net A n) : Net A n := { net with depth := net.depth + 1 }

def netUnlock (net : Net A n) : Net A n := { net with depth := net.depth - 1 }

/-- `tcp_ipv4_bind` and `tcp_ipv6_bind`. The port comes in network order; `none` is a search that
never ends. -/
def bind (net : Net A n) (i : Fin n) (addr : A) (sinPort : Port) (ticks : ℕ) (route : A → Bool) :
    Option (Except Errno Unit × Net A n) :=
  let net := netLock net
  match selectport any net addr (htons sinPort) ticks with
  | none => none
  | some (.error errno, last) => some (.error errno, { net with last })
  | some (.ok port, last) =>
    match localDevice any route { net.conns i with lport := htons port, laddr := addr } with
    | .ok conn => some (.ok (), netUnlock { net with conns := update net.conns i conn, last })
    | .error errno =>
      let conn := { net.conns i with lport := 0, laddr := any }
      some (.error errno, { net with conns := update net.conns i conn, last })

/-- What may happen between and in calls: a bind; a connection that selects a port for itself;
any other change of the connections. -/
inductive Step : Net A n → Net A n → Prop
  | bind {net : Net A n} {net' : Net A n} (i : Fin n) (addr : A) (sinPort : Port) (ticks : ℕ)
      (route : A → Bool) {result : Except Errno Unit}
      (call : bind any net i addr sinPort ticks route = some (result, net')) : Step net net'
  | select {net : Net A n} (addr : A) (portno : Port) (ticks : ℕ) {port : Except Errno Port}
      {last : Port} (call : selectport any net addr portno ticks = some (port, last))
      (conns : Fin n → Conn A) : Step net { net with conns, last }
  | change {net : Net A n} (conns : Fin n → Conn A) (depth : ℕ) : Step net { net with conns, depth }

def Reachable (net : Net A n) : Prop :=
  ∃ conns, Relation.ReflTransGen (Step any) { conns, last := 0, depth := 0 } net

def Taken (net : Net A n) (i : Fin n) (addr : A) (port : Port) : Prop :=
  ∃ j, j ≠ i ∧ (net.conns j).Serves any addr ∧ (net.conns j).lport = htons port

instance (net : Net A n) (i : Fin n) (addr : A) (port : Port) :
    Decidable (Taken any net i addr port) :=
  inferInstanceAs (Decidable (∃ _, _))

/-- The call ends. If it succeeds, no other connection serves the address on the new port; with an
explicit port it fails with `EADDRINUSE` exactly when another connection does on that one. -/
def BindsUniquely (net : Net A n) (i : Fin n) (addr : A) (sinPort : Port) (ticks : ℕ)
    (route : A → Bool) : Prop :=
  ∃ result net', bind any net i addr sinPort ticks route = some (result, net') ∧
    (result = .ok () → ∀ j, j ≠ i → (net'.conns j).Serves any addr →
      (net'.conns j).lport ≠ (net'.conns i).lport) ∧
    (htons sinPort ≠ 0 → (result = .error .eaddrinuse ↔ Taken any net i addr (htons sinPort)))

/-- Every port after the last one is taken and the first of the range is free: the search tests
the first port of the range and returns 32000. -/
def Wraps (net : Net A n) (i : Fin n) (addr : A) (ticks : ℕ) : Prop :=
  (∀ port : Port, portBase net.last ticks < port → port < 32000 → Taken any net i addr port) ∧
    ¬ Taken any net i addr 4096

/-- The device lookup of a bind succeeds. -/
def Routed (net : Net A n) (i : Fin n) (addr : A) (route : A → Bool) : Prop :=
  (net.conns i).bound = true ∨ addr = any ∨ route addr = true

def openCount (net : Net A n) : ℕ := (Finset.univ.filter fun i => (net.conns i).isOpen).card

end Model

/-! ## Byte order -/

theorem htons_htons (port : Port) : htons (htons port) = port := by
  apply BitVec.eq_of_getLsbD_eq
  intro k hk
  unfold htons
  interval_cases k <;> simp

variable {port : Port}

theorem htons_eq_zero : htons port = 0 ↔ port = 0 := by
  constructor
  · intro zero
    rw [← htons_htons port, zero]
    decide
  · rintro rfl
    decide

/-! ## The search -/

variable {last : Port}

section Search

variable (inUse : Port → Bool)

theorem advance_of_lt (h : last.toNat < 31999) : advance last = last + 1 := by
  unfold advance
  rw [if_neg]
  bv_omega

theorem search_skip (last port : Port) (rounds : ℕ) (le : last ≤ port) (lt : port.toNat < 32000)
    (used : ∀ q : Port, last < q → q ≤ port → inUse (htons q) = true) :
    search inUse (rounds + (port.toNat - last.toNat)) last = search inUse rounds port := by
  obtain ⟨d, hd⟩ : ∃ d, port.toNat - last.toNat = d := ⟨_, rfl⟩
  induction d generalizing last with
  | zero =>
    have : last = port := by bv_omega
    rw [hd, this, add_zero]
  | succ d ih =>
    have step : advance last = last + 1 := advance_of_lt (by bv_omega)
    have rest : port.toNat - (last + 1).toNat = d := by bv_omega
    have := ih (last + 1) (by bv_omega) (fun q above => used q (by bv_omega)) rest
    rw [rest] at this
    rw [hd, ← add_assoc, search, step, if_pos (used _ (by bv_omega) (by bv_omega)), this]

variable {rounds : ℕ}

theorem search_found (lt : last < port) (range : port < 32000)
    (enough : port.toNat - last.toNat ≤ rounds)
    (used : ∀ q : Port, last < q → q < port → inUse (htons q) = true)
    (free : inUse (htons port) = false) : search inUse rounds last = some (port, port) := by
  have skip := search_skip inUse last (port - 1) (rounds - (port.toNat - last.toNat) + 1)
    (by bv_omega) (by bv_omega) (fun q above below => used q above (by bv_omega))
  have count : rounds = rounds - (port.toNat - last.toNat) + 1 +
      ((port - 1).toNat - last.toNat) := by bv_omega
  have next : port - 1 + 1 = port := by bv_omega
  have step : advance (port - 1) = port := by
    rw [advance_of_lt (by bv_omega), next]
  rw [count, skip, search, step, next, if_neg (by simp [free])]

theorem search_wrap (range : last < 32000)
    (used : ∀ q : Port, last < q → q < 32000 → inUse (htons q) = true) (rounds : ℕ) :
    search inUse (rounds + 1 + (31999 - last.toNat)) last =
      if inUse (htons 4096) then search inUse rounds 4096 else some (32000, 4096) := by
  have skip := search_skip inUse last 31999 (rounds + 1)
    (by bv_omega) (by decide) (fun q above below => used q above (by bv_omega))
  rw [show 31999 - last.toNat = (31999 : Port).toNat - last.toNat from rfl, skip, search]
  rfl

theorem exists_least_free (low : Port) (above : low < port) (free : inUse (htons port) = false) :
    ∃ q : Port, low < q ∧ q ≤ port ∧ inUse (htons q) = false ∧
      ∀ r : Port, low < r → r < q → inUse (htons r) = true := by
  obtain ⟨q, ⟨lower, qFree⟩, least⟩ := (measure BitVec.toNat).wf.has_min
    {q : Port | low < q ∧ inUse (htons q) = false} ⟨port, above, free⟩
  refine ⟨q, lower, Nat.le_of_not_lt (least port ⟨above, free⟩), qFree, fun r hlow hq => ?_⟩
  by_contra notUsed
  exact least r ⟨hlow, by simpa using notUsed⟩ hq

/-- Every port above the last one is in use and the first of the range is free. -/
def SearchWraps (last : Port) : Prop :=
  (∀ q : Port, last < q → q < 32000 → inUse (htons q) = true) ∧ inUse (htons 4096) = false

/-- With a free port in the range the search ends; the last port is free then, and it is the port
returned unless the search has wrapped to 4096. -/
theorem search_spec {free : Port} (low : 4096 ≤ last) (high : last < 32000)
    (freeLow : 4096 ≤ free) (freeHigh : free < 32000) (isFree : inUse (htons free) = false) :
    ∃ port last', search inUse ephemeralPorts last = some (port, last') ∧
      inUse (htons last') = false ∧
      (port = last' ∧ ¬ SearchWraps inUse last ∨ port = 32000 ∧ SearchWraps inUse last) := by
  by_cases used : ∀ q : Port, last < q → q < 32000 → inUse (htons q) = true
  · have wrap := search_wrap inUse high used
    cases first : inUse (htons 4096) with
    | false =>
      have rounds : ephemeralPorts = 27903 - (31999 - last.toNat) + 1 + (31999 - last.toNat) := by
        simp only [ephemeralPorts]
        bv_omega
      refine ⟨32000, 4096, ?_, first, .inr ⟨rfl, used, first⟩⟩
      rw [rounds, wrap, first, if_neg (by decide)]
    | true =>
      have notFirst : free ≠ 4096 := by
        rintro rfl
        rw [first] at isFree
        cases isFree
      obtain ⟨q, above, le, qFree, least⟩ :=
        exists_least_free inUse 4096 (by bv_omega) isFree
      have below : q ≤ last := by
        by_contra h
        have := used q (by bv_omega) (by bv_omega)
        rw [qFree] at this
        cases this
      have rounds : ephemeralPorts = last.toNat - 4096 + 1 + (31999 - last.toNat) := by
        simp only [ephemeralPorts]
        bv_omega
      refine ⟨q, q, ?_, qFree, .inl ⟨rfl, fun wraps => ?_⟩⟩
      · rw [rounds, wrap, first, if_pos rfl]
        exact search_found inUse above (by bv_omega) (by bv_omega) least qFree
      · rw [wraps.2] at first
        cases first
  obtain ⟨p, pAbove, pBelow, pFree⟩ : ∃ p : Port, last < p ∧ p < 32000 ∧
      inUse (htons p) = false := by
    simpa using used
  obtain ⟨q, above, le, qFree, least⟩ := exists_least_free inUse last pAbove pFree
  refine ⟨q, q, ?_, qFree, .inl ⟨rfl, fun wraps => used wraps.1⟩⟩
  refine search_found inUse above (by bv_omega) ?_ least qFree
  simp only [ephemeralPorts]
  bv_omega

theorem search_last {last' : Port} (low : 4096 ≤ last) (high : last < 32000)
    (found : search inUse rounds last = some (port, last')) : 4096 ≤ last' ∧ last' < 32000 := by
  induction rounds generalizing last with
  | zero => cases found
  | succ rounds ih =>
    have range : 4096 ≤ advance last ∧ advance last < 32000 := by
      unfold advance
      split <;> constructor <;> bv_omega
    rw [search] at found
    split at found
    · exact ih range.1 range.2 found
    · cases found
      exact range

end Search

/-! ## Selecting a port -/

section Select

variable {A : Type} [DecidableEq A] {any : A} {n : ℕ}

/-- What `g_last_tcp_port` can be between two calls. -/
def LastInRange (last : Port) : Prop := last = 0 ∨ 4096 ≤ last ∧ last < 32000

theorem portBase_range (inRange : LastInRange last) (ticks : ℕ) :
    4096 ≤ portBase last ticks ∧ portBase last ticks < 32000 := by
  obtain rfl | range := inRange
  · have ofTicks : (BitVec.ofNat 16 (ticks % 32000)).toNat = ticks % 32000 := by
      rw [BitVec.toNat_ofNat]
      omega
    simp only [portBase, if_true]
    split <;> constructor <;> bv_omega
  · have notZero : last ≠ 0 := by bv_omega
    simpa only [portBase, if_neg notZero] using range

variable {portno : Port} {ticks : ℕ}

variable {net : Net A n} {addr : A}

theorem selectport_last {result : Except Errno Port} (inRange : LastInRange net.last)
    (call : selectport any net addr portno ticks = some (result, last)) : LastInRange last := by
  have base := portBase_range inRange ticks
  simp only [selectport] at call
  split at call
  · obtain ⟨⟨port, last'⟩, found, same⟩ := Option.map_eq_some_iff.1 call
    cases same
    exact .inr (search_last _ base.1 base.2 found)
  split at call
  all_goals
    cases call
    exact .inr base

variable {sinPort : Port}

theorem bind_last {net' : Net A n} {i : Fin n} {route : A → Bool} {result : Except Errno Unit}
    (inRange : LastInRange net.last)
    (call : bind any net i addr sinPort ticks route = some (result, net')) :
    LastInRange net'.last := by
  unfold bind at call
  dsimp only at call
  split at call
  · cases call
  · next selected =>
    cases call
    exact selectport_last inRange selected
  · next selected =>
    split at call <;> cases call <;> exact selectport_last inRange selected

theorem Reachable.lastInRange (reachable : Reachable any net) : LastInRange net.last := by
  obtain ⟨conns, run⟩ := reachable
  induction run with
  | refl => exact .inl rfl
  | tail _ step ih =>
    cases step with
    | bind i addr sinPort ticks route call => exact bind_last ih call
    | select addr portno ticks call conns => exact selectport_last ih call
    | change conns depth => exact ih

variable {net : Net A n} {i : Fin n} {addr : A}

theorem listener_taken (unbound : (net.conns i).lport = 0) (notZero : port ≠ 0) :
    (listener any net.conns addr (htons port)).isSome = true ↔ Taken any net i addr port := by
  simp only [listener, List.find?_isSome, List.mem_finRange, true_and, decide_eq_true_eq]
  constructor
  · rintro ⟨j, hport, serves⟩
    refine ⟨j, ?_, serves, hport⟩
    rintro rfl
    rw [unbound] at hport
    exact notZero (htons_eq_zero.1 hport.symm)
  · rintro ⟨j, -, serves, hport⟩
    exact ⟨j, hport, serves⟩

theorem listener_free (unbound : (net.conns i).lport = 0) (notZero : port ≠ 0) :
    (listener any net.conns addr (htons port)).isSome = false ↔ ¬ Taken any net i addr port := by
  rw [← listener_taken unbound notZero, Bool.not_eq_true]

theorem exists_free (any : A) (i : Fin n) (addr : A) (few : openCount net < ephemeralPorts) :
    ∃ port : Port, 4096 ≤ port ∧ port < 32000 ∧ ¬ Taken any net i addr port := by
  by_contra none
  push Not at none
  have onto : Set.SurjOn (fun j => (htons (net.conns j).lport).toNat)
      (Finset.univ.filter fun j => (net.conns j).isOpen : Finset (Fin n))
      (Finset.Ico 4096 32000 : Finset ℕ) := by
    intro port mem
    rw [Finset.mem_coe, Finset.mem_Ico] at mem
    have value : (BitVec.ofNat 16 port).toNat = port := by
      rw [BitVec.toNat_ofNat]
      omega
    obtain ⟨j, -, serves, lport⟩ := none (BitVec.ofNat 16 port) (by bv_omega) (by bv_omega)
    refine ⟨j, by simpa using serves.1, ?_⟩
    simp only [lport, htons_htons, value]
  have := Finset.card_le_card_of_surjOn _ onto
  rw [Nat.card_Ico] at this
  simp only [openCount, ephemeralPorts] at few
  omega

theorem searchWraps_iff (unbound : (net.conns i).lport = 0)
    (inRange : LastInRange net.last) (ticks : ℕ) :
    SearchWraps (fun port => (listener any net.conns addr port).isSome)
      (portBase net.last ticks) ↔ Wraps any net i addr ticks := by
  have base := portBase_range inRange ticks
  refine and_congr (forall_congr' fun q => imp_congr_right fun above => ?_) ?_
  · rw [listener_taken unbound (by bv_omega)]
  · exact listener_free unbound (by decide)

theorem selectport_zero (addr : A) (unbound : (net.conns i).lport = 0) (inRange : LastInRange net.last)
    (few : openCount net < ephemeralPorts) (ticks : ℕ) :
    ∃ port last, selectport any net addr 0 ticks = some (.ok port, last) ∧
      (¬ Taken any net i addr port ∧ ¬ Wraps any net i addr ticks ∨
        port = 32000 ∧ Wraps any net i addr ticks) := by
  have base := portBase_range inRange ticks
  obtain ⟨free, freeLow, freeHigh, isFree⟩ := exists_free any i addr few
  rw [← listener_free unbound (by bv_omega)] at isFree
  obtain ⟨port, last, found, lastFree, result⟩ := search_spec
    (fun port => (listener any net.conns addr port).isSome) base.1 base.2 freeLow freeHigh isFree
  have range := search_last _ base.1 base.2 found
  refine ⟨port, last, ?_, ?_⟩
  · simp only [selectport, if_true, found, Option.map_some]
  rw [searchWraps_iff unbound inRange] at result
  obtain ⟨rfl, notWraps⟩ | result := result
  · exact .inl ⟨(listener_free unbound (by bv_omega)).1 lastFree, notWraps⟩
  · exact .inr result

/-- An explicit port in host order is compared with the ports in network order: the test is for
the port with its bytes exchanged. -/
theorem selectport_explicit (unbound : (net.conns i).lport = 0) (notZero : portno ≠ 0) (ticks : ℕ) :
    selectport any net addr portno ticks =
      some (if Taken any net i addr (htons portno) then .error .eaddrinuse else .ok portno,
        portBase net.last ticks) := by
  have test : (listener any net.conns addr (htons (htons portno))).isSome = true ↔ _ :=
    listener_taken unbound (mt htons_eq_zero.1 notZero)
  rw [htons_htons] at test
  simp only [selectport, if_neg notZero, test]
  split <;> rfl

theorem selectport_netLock : selectport any (netLock net) addr portno ticks =
    selectport any net addr portno ticks := rfl

theorem bind_of_device {route : A → Bool} {conn : Conn A}
    (selected : selectport any net addr (htons sinPort) ticks = some (.ok port, last))
    (device : localDevice any route { net.conns i with lport := htons port, laddr := addr } =
      .ok conn) : bind any net i addr sinPort ticks route =
        some (.ok (), { net with conns := update net.conns i conn, last }) := by
  simp only [bind, selectport_netLock, selected]
  simp only [netLock, device]
  rfl

theorem bind_of_port (i : Fin n) (route : A → Bool)
    (selected : selectport any net addr (htons sinPort) ticks = some (.ok port, last)) :
    (Routed any net i addr route ∧ ∃ conn, conn.lport = htons port ∧
      bind any net i addr sinPort ticks route =
        some (.ok (), { net with conns := update net.conns i conn, last })) ∨
    (¬ Routed any net i addr route ∧ ∃ net', net'.depth = net.depth + 1 ∧
      bind any net i addr sinPort ticks route = some (.error .enetunreach, net')) := by
  by_cases bound : (net.conns i).bound = true
  · exact .inl ⟨.inl bound, _, rfl, bind_of_device selected (if_pos bound)⟩
  by_cases wildcard : addr = any
  · have device : localDevice any route { net.conns i with lport := htons port, laddr := addr } =
        .ok { net.conns i with lport := htons port, laddr := addr } :=
      (if_neg bound).trans (if_pos wildcard)
    exact .inl ⟨.inr (.inl wildcard), _, rfl, bind_of_device selected device⟩
  by_cases routed : route addr = true
  · have device : localDevice any route { net.conns i with lport := htons port, laddr := addr } =
        .ok { net.conns i with lport := htons port, laddr := addr, bound := true } :=
      (if_neg bound).trans ((if_neg wildcard).trans (if_pos routed))
    exact .inl ⟨.inr (.inr routed), _, rfl, bind_of_device selected device⟩
  have device : localDevice any route { net.conns i with lport := htons port, laddr := addr } =
      .error .enetunreach := (if_neg bound).trans ((if_neg wildcard).trans (if_neg routed))
  refine .inr ⟨by rintro (h | h | h) <;> contradiction, ?_⟩
  simp only [bind, selectport_netLock, selected]
  simp only [netLock, device]
  exact ⟨_, rfl, rfl⟩

omit [DecidableEq A] in
theorem update_unique {conn : Conn A} (lport : conn.lport = htons port) :
    (∀ j, j ≠ i → (update net.conns i conn j).Serves any addr →
      (update net.conns i conn j).lport ≠ (update net.conns i conn i).lport) ↔
    ¬ Taken any net i addr port := by
  rw [update_self, lport]
  constructor
  · rintro unique ⟨j, other, serves, hport⟩
    have := unique j other
    rw [update_of_ne other] at this
    exact this serves hport
  intro free j other
  rw [update_of_ne other]
  exact fun serves hport => free ⟨j, other, serves, hport⟩

/-- An explicit port is taken exactly when the port with its bytes exchanged is; a search does not
wrap to the port 32000 while that is taken. -/
def TestsRightPort (any : A) (net : Net A n) (i : Fin n) (addr : A) (sinPort : Port) (ticks : ℕ)
    (route : A → Bool) : Prop :=
  if htons sinPort = 0 then
    ¬ (Wraps any net i addr ticks ∧ Taken any net i addr 32000 ∧ Routed any net i addr route)
  else Taken any net i addr (htons sinPort) ↔ Taken any net i addr sinPort

theorem bindsUniquely_zero (unbound : (net.conns i).lport = 0) (inRange : LastInRange net.last)
    (few : openCount net < ephemeralPorts) (zero : htons sinPort = 0) (ticks : ℕ)
    (route : A → Bool) :
    BindsUniquely any net i addr sinPort ticks route ↔
      ¬ (Wraps any net i addr ticks ∧ Taken any net i addr 32000 ∧
        Routed any net i addr route) := by
  obtain ⟨port, last, selected, chosen⟩ := selectport_zero addr unbound inRange few ticks
  rw [← zero] at selected
  obtain ⟨routed, conn, lport, call⟩ | ⟨notRouted, net', -, call⟩ :=
    bind_of_port i route selected
  · have unique : BindsUniquely any net i addr sinPort ticks route ↔
        ¬ Taken any net i addr port := by
      rw [← update_unique lport]
      constructor
      · rintro ⟨result, net', call', success, -⟩
        rw [call] at call'
        cases call'
        exact success rfl
      · exact fun h => ⟨_, _, call, fun _ => h, fun notZero => absurd zero notZero⟩
    rw [unique]
    obtain ⟨free, notWraps⟩ | ⟨rfl, wraps⟩ := chosen
    · exact iff_of_true free fun h => notWraps h.1
    · exact not_congr ⟨fun taken => ⟨wraps, taken, routed⟩, fun h => h.2.1⟩
  refine iff_of_true ⟨_, _, call, ?_, fun notZero => absurd zero notZero⟩
    fun h => notRouted h.2.2
  intro success
  cases success

theorem bindsUniquely_explicit (unbound : (net.conns i).lport = 0)
    (notZero : htons sinPort ≠ 0) (ticks : ℕ) (route : A → Bool) :
    BindsUniquely any net i addr sinPort ticks route ↔
      (Taken any net i addr (htons sinPort) ↔ Taken any net i addr sinPort) := by
  have selected : selectport any net addr (htons sinPort) ticks = _ :=
    selectport_explicit unbound notZero ticks
  rw [htons_htons] at selected
  by_cases tested : Taken any net i addr sinPort
  · rw [if_pos tested] at selected
    have call : bind any net i addr sinPort ticks route =
        some (.error .eaddrinuse, { netLock net with last := portBase net.last ticks }) := by
      simp only [bind, selectport_netLock, selected]
    simp only [tested, iff_true]
    constructor
    · rintro ⟨result, net', call', -, inUse⟩
      rw [call] at call'
      cases call'
      exact (inUse notZero).1 rfl
    · exact fun taken => ⟨_, _, call, fun success => (by cases success),
        fun _ => iff_of_true rfl taken⟩
  rw [if_neg tested] at selected
  simp only [tested, iff_false]
  obtain ⟨routed, conn, lport, call⟩ | ⟨notRouted, net', -, call⟩ :=
    bind_of_port i route selected
  · constructor
    · rintro ⟨result, net', call', success, -⟩
      rw [call] at call'
      cases call'
      exact (update_unique lport).1 (success rfl)
    intro free
    exact ⟨_, _, call, fun _ => (update_unique lport).2 free, fun _ => iff_of_false (nofun) free⟩
  constructor
  · rintro ⟨result, net'', call', -, inUse⟩ taken
    rw [call] at call'
    cases call'
    cases (inUse notZero).2 taken
  intro free
  exact ⟨_, _, call, fun success => (by cases success), fun _ => iff_of_false (nofun) free⟩

/-- From every reachable state a bind of a connection without a port gives it a port of its own, and
fails with `EADDRINUSE` exactly when it should, if and only if the right port is tested. -/
theorem bind_unique_iff (reachable : Reachable any net) (unbound : (net.conns i).lport = 0)
    (few : openCount net < ephemeralPorts) (sinPort : Port) (ticks : ℕ) (route : A → Bool) :
    BindsUniquely any net i addr sinPort ticks route ↔
      TestsRightPort any net i addr sinPort ticks route := by
  unfold TestsRightPort
  split
  · next zero => exact bindsUniquely_zero unbound reachable.lastInRange few zero ticks route
  · next notZero => exact bindsUniquely_explicit unbound notZero ticks route

/-! ## The network lock -/

/-- A bind leaves the lock as it was if and only if nobody is found to have an explicit port, and
there is a device: the two exits with an error do not unlock. -/
theorem bind_depth_iff {result : Except Errno Unit} {net' : Net A n} {route : A → Bool}
    (returns : bind any net i addr sinPort ticks route = some (result, net')) :
    net'.depth = net.depth ↔
      (htons sinPort ≠ 0 → listener any net.conns addr (htons sinPort) = none) ∧
        Routed any net i addr route := by
  cases selected : selectport any net addr (htons sinPort) ticks with
  | none => simp [bind, selectport_netLock, selected] at returns
  | some pair =>
    obtain ⟨selection, last⟩ := pair
    have free : (∃ port, selection = .ok port) ↔
        (htons sinPort ≠ 0 → listener any net.conns addr (htons sinPort) = none) := by
      unfold selectport at selected
      split at selected
      · next zero =>
        obtain ⟨found, -, same⟩ := Option.map_eq_some_iff.1 selected
        cases same
        simp [zero]
      · next notZero =>
        split at selected
        · next inUse =>
          cases selected
          exact iff_of_false nofun fun none => Option.isSome_iff_ne_none.1 inUse (none notZero)
        · next inUse =>
          cases selected
          exact iff_of_true ⟨_, rfl⟩ fun _ => by simpa using inUse
    rw [← free]
    cases selection with
    | error errno =>
      simp only [bind, selectport_netLock, selected, Option.some.injEq] at returns
      cases returns
      simp [netLock]
    | ok port =>
      rcases bind_of_port i route selected with ⟨routed, conn, -, call⟩ | ⟨unrouted, net'', deeper, call⟩
      · rw [call] at returns
        cases returns
        simp [routed]
      · rw [call] at returns
        cases returns
        simp [unrouted, deeper]

end Select

/-! ## Port 80 twice -/

/-- An allocated connection; the wildcard address is 0. -/
def fresh : Conn ℕ := { isOpen := true, lport := 0, laddr := 0, bound := false }

/-- Of two allocated connections the first is bound to port 80 of the address 1. -/
def webServer : Net ℕ 2 where
  conns := update (fun _ => fresh) ⟨0, Nat.two_pos⟩
    { isOpen := true, lport := htons 80, laddr := 1, bound := true }
  last := 4097
  depth := 0

theorem webServer_reachable : Reachable 0 webServer := by
  have call : bind 0 { conns := fun _ => fresh, last := 0, depth := 0 } 0 1 (htons 80) 1
      (fun _ => true) = some (.ok (), webServer) := rfl
  exact ⟨_, .single (.bind 0 1 (htons 80) 1 _ call)⟩

/-- A second connection is bound to the same address and the same port, without an error. -/
theorem bind_same_port_twice :
    Reachable 0 webServer ∧ (webServer.conns 1).lport = 0 ∧ openCount webServer < ephemeralPorts ∧
      Taken 0 webServer 1 1 80 ∧ ¬ BindsUniquely 0 webServer 1 1 (htons 80) 1 (fun _ => true) := by
  refine ⟨webServer_reachable, by decide, by decide, by decide, ?_⟩
  rw [bindsUniquely_explicit (by decide) (by decide)]
  decide

/-- A port whose two bytes are equal is tested as it is given. -/
theorem bind_equal_bytes :
    TestsRightPort 0 webServer 1 1 (htons 0x1f1f) 1 (fun _ => true) ∧
      BindsUniquely 0 webServer 1 1 (htons 0x1f1f) 1 (fun _ => true) := by
  have right : TestsRightPort 0 webServer 1 1 (htons 0x1f1f) 1 (fun _ => true) := by
    rw [TestsRightPort, if_neg (by decide)]
    decide
  exact ⟨right, (bind_unique_iff webServer_reachable (by decide) (by decide) _ _ _).2 right⟩

/-- An address without a device, and a port in use. -/
theorem bind_keeps_lock :
    (bind 0 webServer 1 2 0 1 fun _ => false).map (·.2.depth) = some 1 ∧
      (bind 0 webServer 1 1 80 1 fun _ => true).map (·.2.depth) = some 1 := by
  decide

theorem bind_releases_lock :
    ∃ result ∈ bind 0 webServer 1 1 (htons 80) 1 fun _ => true,
      result.2.depth = webServer.depth := by
  have returns : bind 0 webServer 1 1 (htons 80) 1 (fun _ => true) = some (.ok (), _) := rfl
  exact ⟨_, returns, (bind_depth_iff returns).2 ⟨fun _ => by decide, .inr (.inr rfl)⟩⟩

end NuttxRtos.Tcp.Ports
