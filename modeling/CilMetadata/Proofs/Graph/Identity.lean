import CilMetadata.Proofs.Graph.Cache
import CilMetadata.Proofs.Graph.Properties

/-!
# The identity of members

However a graph is used, a token keeps the object that its first look-up has made, and two tokens
never share one.

* `WellFormed` is the invariant of the members, and `Grown base g` says moreover that no member of
  `base` has been lost;
* `Grown.simulation`: nothing that is asked of a graph loses a member;
* `GraphCall` is a use of a graph, `run` a history of uses;
* `lookup_of_run`: what look-ups find at two points of a history.
-/

namespace CilMetadata.Graph

variable {g : Graph} {kind : MemberKind} {token : Token}

/-! ### Well-formed graphs -/

/-- Members stand for their tokens, and no two share an object. -/
structure WellFormed (g : Graph) : Prop where
  stands : ∀ {token : Token} {member : Member}, g.members[token]? = some member →
    member.token = token ∧ token.isIn member.kind.table = true
  below : ∀ {token : Token} {member : Member}, g.members[token]? = some member →
    member.object < g.nextObject
  distinct : ∀ {token other : Token} {member member' : Member},
    g.members[token]? = some member → g.members[other]? = some member' →
    member.object = member'.object → token = other

/-- A well-formed graph with all members of an earlier one, on the same heaps, settings and bodies;
the tables may differ. -/
structure Grown (base g : Graph) : Prop extends WellFormed g where
  heaps : g.heaps = base.heaps
  settings : g.settings = base.settings
  bodies : g.bodies = base.bodies
  keeps : ∀ {token : Token} {member : Member}, base.members[token]? = some member →
    g.members[token]? = some member

theorem WellFormed.grown (hg : WellFormed g) : Grown g g := ⟨hg, rfl, rfl, rfl, id⟩

namespace Grown

variable {base : Graph}

/-- Neither the tables nor what is kept matters. -/
theorem of_members (hg : Grown base g) (tables : Tables) (slots : Std.HashMap Token KeptSlots)
    {nextObject : Nat} (hobject : g.nextObject ≤ nextObject) :
    Grown base { g with tables, slots, nextObject } where
  stands := hg.stands
  below hmember := Nat.lt_of_lt_of_le (hg.below hmember) hobject
  distinct := hg.distinct
  heaps := hg.heaps
  settings := hg.settings
  bodies := hg.bodies
  keeps := hg.keeps

theorem kind_eq (hg : Grown base g) {member : Member} (hmember : g.members[token]? = some member)
    (hin : token.isIn kind.table = true) : member = ⟨kind, token, member.object⟩ := by
  obtain ⟨htoken, hin'⟩ := hg.stands hmember
  have hkind := MemberKind.table_injective (Token.isIn_unique hin' hin)
  cases member
  simp_all

theorem withMember (hg : Grown base g) (hin : token.isIn kind.table = true)
    (hnone : g.members[token]? = none) : Grown base (g.withMember kind token) := by
  have hget : ∀ other, (g.withMember kind token).members[other]? =
      if other = token then some ⟨kind, token, g.nextObject⟩ else g.members[other]? := by
    intro other
    simp only [Graph.withMember, Std.HashMap.getElem?_insert, beq_iff_eq, eq_comm (a := other)]
  have hold : ∀ {other : Token} {member : Member}, g.members[other]? = some member →
      other ≠ token := by
    rintro other member hmember rfl
    simp [hnone] at hmember
  refine ⟨?_, hg.heaps, hg.settings, hg.bodies, fun {other member} hmember => ?_⟩
  case refine_2 =>
    rw [hget, if_neg (hold (hg.keeps hmember))]
    exact hg.keeps hmember
  constructor
  case stands =>
    intro other member hmember
    rw [hget] at hmember
    split_ifs at hmember with hother
    · cases hmember
      exact ⟨hother.symm, hother ▸ hin⟩
    · exact hg.stands hmember
  case below =>
    intro other member hmember
    rw [hget] at hmember
    split_ifs at hmember with hother
    · cases hmember
      exact Nat.lt_succ_self _
    · exact Nat.lt_succ_of_lt (hg.below hmember)
  case distinct =>
    intro first second member member' hmember hmember' hobject
    rw [hget] at hmember hmember'
    split_ifs at hmember hmember' with hfirst hsecond hsecond
    · rw [hfirst, hsecond]
    · cases hmember
      exact absurd hobject (Nat.ne_of_gt (hg.below hmember'))
    · cases hmember'
      exact absurd hobject (Nat.ne_of_lt (hg.below hmember))
    · exact hg.distinct hmember hmember' hobject

section Simulation

variable (base) (start : Graph)

/-- Keeping a value loses no member. -/
theorem keep_agree {token : Token} {slot : Slot} (value : slot.Value) :
    Agree (fun g h => g = h ∧ Grown base g ∧ g.bare = start.bare)
      (fun a b => a.value = b.value ∧ True) (keep token slot value) (keep token slot value) := by
  rintro g _ ⟨rfl, hg, hbare⟩
  cases hkept : g.kept? token slot with
  | some kept =>
    exact .of_ok (keep_of_some hkept _) (keep_of_some hkept _) ⟨rfl, trivial⟩ ⟨rfl, hg, hbare⟩
  | none =>
    have hafter : Grown base (g.withKept token slot value) :=
      hg.of_members _ _ (Nat.le_succ _)
    exact .of_ok (keep_of_none hkept _) (keep_of_none hkept _) ⟨rfl, trivial⟩ ⟨rfl, hafter, hbare⟩

/-- Nothing that is asked of a graph on the module of `start` loses a member. -/
theorem simulation : Simulation NoRow EverySlot (fun _ _ _ => True) start start
    fun g h => g = h ∧ Grown base g ∧ g.bare = start.bare where
  same := .refl NoRow start
  bare := by
    rintro g _ ⟨rfl, -, hbare⟩
    exact ⟨hbare, hbare⟩
  memberOf := by
    rintro kind token hin g _ ⟨rfl, hg, hbare⟩
    cases hmember : g.members[token]? with
    | some member =>
      have hstep : memberOf kind token g = .ok member g := memberOf_of_some hmember
      have htwins : Twins token member member := by
        rw [hg.kind_eq hmember hin]
        exact .intro hin _ _
      exact .of_ok hstep hstep htwins ⟨rfl, hg, hbare⟩
    | none =>
      have hstep : memberOf kind token g = _ := memberOf_of_none hmember
      exact .of_ok hstep hstep (.intro hin _ _) ⟨rfl, hg.withMember hin hmember, hbare⟩
  remember := by
    rintro kind token slot step g _ ⟨rfl, hg, hbare⟩ hin - - - hagree
    cases hkept : g.kept? token slot with
    | some kept =>
      have hstep := remember_of_some hkept step
      exact .of_ok hstep hstep ⟨rfl, trivial⟩ ⟨rfl, hg, hbare⟩
    | none =>
      refine AgreeAt.congr ((hagree ⟨rfl, hg, hbare⟩).bind fun a b hab => ?_)
        (remember_of_none hkept _) (remember_of_none hkept _)
      subst hab
      exact keep_agree base start a
  body := by
    rintro token - - hagree g _ ⟨rfl, hg, hbare⟩
    cases hkept : g.kept? token .body with
    | some kept =>
      exact .of_ok (body?_of_kept hkept) (body?_of_kept hkept) (.some rfl) ⟨rfl, hg, hbare⟩
    | none =>
      exact (hagree ⟨rfl, hg, hbare⟩).congr (body?_of_not_kept hkept) (body?_of_not_kept hkept)

end Simulation

end Grown

end CilMetadata.Graph

namespace CilMetadata

/-! ### Histories -/

/-- A use of a graph. -/
inductive GraphCall
  | lookup (token : Token)
  | find (kind : MemberKind) (token : Token)
  | membersOf (kind : MemberKind)
  /-- Ask about a member that has been looked up before. -/
  | inspect (typeArguments : Option (List TypeSig)) (token : Token) (property : Property)
  | replaceRow {kind : RowKind} (rid : Nat) (row : Row kind)
  /-- Change the tables behind the back of the graph. -/
  | edit (change : Tables → Tables)
  | flushTables {kind : RowKind} (buffer : RowBuffer kind)
  | flush {kind : RowKind} (buffer : RowBuffer kind)
  | clear

namespace GraphCall

/-- The graph after a use. -/
def after (g : Graph) : GraphCall → Graph
  | lookup token => Graph.after (Graph.lookup token) g
  | find kind token => Graph.after (Graph.find kind token) g
  | membersOf kind => Graph.after (Graph.membersOf kind) g
  | inspect typeArguments token property =>
    match g.members[token]? with
    | some member => Graph.after (Graph.inspect typeArguments member.kind token property) g
    | none => g
  | replaceRow rid row => Graph.after (Graph.replaceRow rid row) g
  | edit change => { g with tables := change g.tables }
  | flushTables buffer => Graph.after (Graph.flushTables buffer) g
  | flush buffer => Graph.after (Graph.flush buffer) g
  | clear => g.clearKept

/-- A use that asks for members or their properties, and changes no table. -/
def isRead : GraphCall → Bool
  | lookup _ | find _ _ | membersOf _ | inspect _ _ _ => true
  | _ => false

end GraphCall

namespace Graph

/-- The graph after a history of uses. -/
def run (calls : List GraphCall) (g : Graph) : Graph := calls.foldl GraphCall.after g

/-- What is read leads along any simulation. -/
theorem Simulation.read {known : Token → (slot : Slot) → slot.Value → Prop}
    {base base' : Graph} {Q : Graph → Graph → Prop}
    (sim : Simulation NoRow EverySlot known base base' Q) {g : Graph} (hg : WellFormed g)
    (hself : Q g g) {call : GraphCall}
    (hread : call.isRead = true) : Q (call.after g) (call.after g) := by
  cases call with
  | lookup token => exact (sim.lookup token hself).after
  | find kind token => exact (sim.find kind token hself).after
  | membersOf kind => exact (sim.membersOf kind hself).after
  | inspect typeArguments token property =>
    simp only [GraphCall.after]
    cases hmember : g.members[token]? with
    | none => exact hself
    | some member =>
      have hin := (hg.stands hmember).2
      exact (sim.inspect hin typeArguments property (fun _ _ _ => trivial) hself).after
  | _ => cases hread

theorem Grown.call {base g : Graph} (hg : Grown base g) (call : GraphCall) :
    Grown base (call.after g) := by
  cases call with
  | lookup _ | find _ _ | membersOf _ | inspect _ _ _ =>
    exact ((Grown.simulation base g).read hg.toWellFormed ⟨rfl, hg, rfl⟩ rfl).2.1
  | @replaceRow kind rid row =>
    simp only [GraphCall.after]
    cases hrow : g.tables.row? kind rid with
    | none =>
      rw [after_of_ok (replaceRow_of_none hrow row)]
      exact hg
    | some previous =>
      rw [after_of_ok (replaceRow_of_some hrow row)]
      exact hg.of_members _ _ (Nat.le_refl _)
  | edit _ | flushTables _ | flush _ | clear => exact hg.of_members _ _ (Nat.le_refl _)

theorem Grown.run {base g : Graph} (hg : Grown base g) (calls : List GraphCall) :
    Grown base (run calls g) := by
  induction calls generalizing g with
  | nil => exact hg
  | cons call rest ih => exact ih (hg.call call)

/-- Nothing that is asked of a graph changes its tables. -/
theorem WellFormed.tables_of_reads (hg : WellFormed g) {calls : List GraphCall}
    (hreads : ∀ call ∈ calls, call.isRead = true) : (run calls g).tables = g.tables := by
  induction calls generalizing g with
  | nil => rfl
  | cons call rest ih =>
    have hcall := hreads call List.mem_cons_self
    obtain ⟨-, hafter, hbare⟩ := (Grown.simulation g g).read hg ⟨rfl, hg.grown, rfl⟩ hcall
    have hrest := ih hafter.toWellFormed fun other hother =>
      hreads other (List.mem_cons_of_mem _ hother)
    have htables := congrArg Graph.tables hbare
    exact hrest.trans htables

/-- Look-ups at two points of any history of a new graph. A look-up finds a member exactly when the
token names an existing row of a table with members; the member is the one of the token. Two members
that are found are the same object when their tokens are equal, and never otherwise. A look-up that
finds nothing changes nothing. -/
theorem lookup_of_run (tables : Tables) (heaps : Heaps) (settings : Settings)
    (bodies : Option (List (UInt32 × Array UInt8))) (before between : List GraphCall)
    (token other : Token) :
    let first := run before { tables, heaps, settings, bodies }
    let second := run between (after (lookup token) first)
    (∃ found, outcome (lookup token) first = .ok found ∧
      (found.isSome ↔ ∃ kind : MemberKind, token.isIn kind.table = true ∧ 1 ≤ token.row ∧
        token.row ≤ first.tables.count kind.table)) ∧
    (∀ member, outcome (lookup token) first = .ok (some member) →
      member.token = token ∧ token.isIn member.kind.table = true) ∧
    (∀ member member', outcome (lookup token) first = .ok (some member) →
      outcome (lookup other) second = .ok (some member') →
      (token = other → member = member') ∧ (token ≠ other → member.object ≠ member'.object)) ∧
    (outcome (lookup token) first = .ok none → after (lookup token) first = first) := by
  intro first second
  have hnew : WellFormed { tables, heaps, settings, bodies } := by
    constructor <;> simp
  have hfirst : WellFormed first := (hnew.grown.run before).toWellFormed
  have hlookup : WellFormed (after (lookup token) first) :=
    (hfirst.grown.call (.lookup token)).toWellFormed
  have hsecond : Grown (after (lookup token) first) second := hlookup.grown.run between
  have hlast : Grown second (after (lookup other) second) :=
    hsecond.toWellFormed.grown.call (.lookup other)
  refine ⟨?_, ?_, ?_, ?_⟩
  · by_cases hresolves : ∃ kind, first.Resolves token kind
    · obtain ⟨kind, hkind⟩ := hresolves
      obtain ⟨member, hfound⟩ := outcome_lookup_of_resolves hkind
      refine ⟨_, hfound, ?_⟩
      simp only [Option.isSome_some, true_iff]
      exact ⟨kind, hkind.isIn, hkind.pos, hkind.le⟩
    · have hnone := fun kind hkind => hresolves ⟨kind, hkind⟩
      refine ⟨_, outcome_of_ok (lookup_of_not_resolves hnone), ?_⟩
      simp only [Option.isSome_none, Bool.false_eq_true, false_iff]
      rintro ⟨kind, hin, hpos, hle⟩
      exact hnone kind ⟨hin, hpos, hle⟩
  · intro member hfound
    exact hlookup.stands (members_after_lookup hfound)
  · intro member member' hfound hfound'
    have hmember := hlast.keeps (hsecond.keeps (members_after_lookup hfound))
    have hmember' := members_after_lookup hfound'
    constructor
    · rintro rfl
      exact Option.some.inj (hmember.symm.trans hmember')
    · intro hne hobject
      exact hne (hlast.distinct hmember hmember' hobject)
  · intro hfound
    by_cases hresolves : ∃ kind, first.Resolves token kind
    · obtain ⟨kind, hkind⟩ := hresolves
      obtain ⟨member, hmember⟩ := outcome_lookup_of_resolves hkind
      rw [hmember] at hfound
      cases hfound
    · exact after_of_ok (lookup_of_not_resolves fun kind hkind => hresolves ⟨kind, hkind⟩)

end Graph

end CilMetadata
