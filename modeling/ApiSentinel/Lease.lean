import Mathlib.Data.List.Basic

/-!
# Leased work items

The life of one work item that is handed out under leases.  A delivery starts a
lease and draws a token; the holder may renew the lease or complete the item
before it expires; an expired lease lapses and the item can be delivered again;
an item whose deliveries are used up is exhausted.

Nothing here knows how items are stored.  A store that moves each of its items
by `Step` inherits the laws below: the holder of the newest delivery is the only
one who can act, and deliveries are numbered without gaps.
-/

namespace Lease

variable {Token Result : Type}

inductive Item (Token Result : Type)
  | ready (deliveries : Nat)
  | leased (token : Token) (expiry : Int) (deliveries : Nat)
  | finished (result : Result)

def Item.result : Item Token Result → Option Result
  | .finished result => some result
  | _ => none

inductive Event (Token Result : Type)
  | deliver (token : Token) (expiry : Int) (number : Int)
  | renew (token : Token) (expiry : Int)
  | lapse
  | complete (token : Token) (result : Result)
  | exhaust (result : Result)

/-- What can happen to an item at a clock reading. -/
inductive Step (limit : Nat) (now : Int) :
    Item Token Result → Event Token Result → Item Token Result → Prop
  | deliver {token expiry deliveries} (left : deliveries < limit) :
      Step limit now (.ready deliveries) (.deliver token expiry (deliveries + 1))
        (.leased token expiry (deliveries + 1))
  | renew {token expiry deliveries next} (held : now < expiry) :
      Step limit now (.leased token expiry deliveries) (.renew token next)
        (.leased token next deliveries)
  | lapse {token expiry deliveries} (ranOut : expiry ≤ now) :
      Step limit now (.leased token expiry deliveries) .lapse (.ready deliveries)
  | complete {token expiry deliveries result} (held : now < expiry) :
      Step limit now (.leased token expiry deliveries) (.complete token result)
        (.finished result)
  | exhaust {deliveries result} (used : limit ≤ deliveries) :
      Step limit now (.ready deliveries) (.exhaust result) (.finished result)

/-- Several events at one clock reading, oldest first. -/
inductive Steps (limit : Nat) (now : Int) :
    Item Token Result → List (Event Token Result) → Item Token Result → Prop
  | nil {item} : Steps limit now item [] item
  | cons {item event next events last} (moves : Step limit now item event next)
      (rest : Steps limit now next events last) :
      Steps limit now item (event :: events) last

theorem Steps.one {limit : Nat} {now : Int} {item next : Item Token Result}
    {event : Event Token Result} (moves : Step limit now item event next) :
    Steps limit now item [event] next :=
  .cons moves .nil

theorem Steps.append {limit : Nat} {now : Int} {item next last : Item Token Result}
    {first second : List (Event Token Result)} (one : Steps limit now item first next)
    (two : Steps limit now next second last) : Steps limit now item (first ++ second) last := by
  induction one with
  | nil => exact two
  | cons moves _ ih => exact .cons moves (ih two)

/-- Events with their clock readings, newest first. -/
abbrev History (Token Result : Type) := List (Int × Event Token Result)

/-- The histories that lead a new item to a state. -/
inductive Lifecycle (limit : Nat) : History Token Result → Item Token Result → Prop
  | new : Lifecycle limit [] (.ready 0)
  | step {history item now event next} (past : Lifecycle limit history item)
      (moves : Step limit now item event next) :
      Lifecycle limit ((now, event) :: history) next

theorem Lifecycle.steps {limit : Nat} {now : Int} {history : History Token Result}
    {item next : Item Token Result} {events : List (Event Token Result)}
    (past : Lifecycle limit history item) (moves : Steps limit now item events next) :
    Lifecycle limit ((events.map (fun event => (now, event))).reverse ++ history) next := by
  induction moves generalizing history with
  | nil => exact past
  | cons first _ ih => simpa using ih (past.step first)

/-- The clock never ran backwards. -/
def Ordered (history : History Token Result) : Prop :=
  history.Pairwise (fun later earlier => earlier.1 ≤ later.1)

namespace History

def deliveryNumber : Event Token Result → Option Int
  | .deliver _ _ number => some number
  | _ => none

/-- The numbers that the deliveries carry, newest first. -/
def numbers (history : History Token Result) : List Int :=
  history.filterMap (fun event => deliveryNumber event.2)

def deliveries (history : History Token Result) : Nat :=
  (numbers history).length

def isLapse : Event Token Result → Bool
  | .lapse => true
  | _ => false

def lapses (history : History Token Result) : Nat :=
  history.countP (fun event => isLapse event.2)

/-- The token of the newest delivery. -/
def lastToken : History Token Result → Option Token
  | [] => none
  | (_, .deliver token _ _) :: _ => some token
  | _ :: older => lastToken older

theorem lastToken_append (newer older : History Token Result) :
    lastToken (newer ++ older) = (lastToken newer).or (lastToken older) := by
  fun_induction lastToken newer with
  | case1 => rfl
  | case2 => rfl
  | case3 head tail noDelivery ih => simpa [lastToken] using ih

/-- The expiry that the holder of a token was last given, by its delivery or by
a renewal. -/
def expiryOf [DecidableEq Token] (token : Token) : History Token Result → Option Int
  | [] => none
  | (_, .deliver holder expiry _) :: older =>
      if holder = token then some expiry else expiryOf token older
  | (_, .renew holder expiry) :: older =>
      if holder = token then some expiry else expiryOf token older
  | _ :: older => expiryOf token older

/-- The newest delivery has lapsed. -/
def lapsed : History Token Result → Bool
  | [] => false
  | (_, .deliver _ _ _) :: _ => false
  | (_, .lapse) :: _ => true
  | _ :: older => lapsed older

/-- Some holder has completed the item. -/
def Completed (history : History Token Result) : Prop :=
  ∃ now token result, (now, Event.complete token result) ∈ history

@[simp]
theorem deliveries_deliver (now : Int) (token : Token) (expiry number : Int)
    (history : History Token Result) :
    deliveries ((now, .deliver token expiry number) :: history) = deliveries history + 1 := by
  simp [deliveries, numbers, deliveryNumber]

end History

open History

/-- Nothing happens to a finished item. -/
theorem not_step_finished {limit : Nat} {now : Int} {result : Result}
    {event : Event Token Result} {next : Item Token Result} :
    ¬ Step limit now (.finished result) event next := by
  intro moves
  cases moves

theorem steps_finished {limit : Nat} {now : Int} {result : Result}
    {events : List (Event Token Result)} {next : Item Token Result}
    (moves : Steps limit now (.finished result) events next) :
    events = [] ∧ next = .finished result := by
  cases moves with
  | nil => exact ⟨rfl, rfl⟩
  | cons first rest => exact (not_step_finished first).elim

theorem not_completed_cons {history : History Token Result} {now : Int}
    {event : Event Token Result} (past : ¬ Completed history)
    (other : ∀ token result, event ≠ .complete token result) :
    ¬ Completed ((now, event) :: history) := by
  rintro ⟨time, token, result, member⟩
  rcases List.mem_cons.mp member with head | tail
  · exact other token result (Prod.mk.inj head).2.symm
  · exact past ⟨time, token, result, tail⟩

variable [DecidableEq Token]

/-- What the history says about the state it leads to. -/
def Agrees (limit : Nat) (history : History Token Result) : Item Token Result → Prop
  | .ready deliveries =>
      deliveries = History.deliveries history ∧ deliveries ≤ limit ∧ ¬ Completed history ∧
        ∀ token, lastToken history = some token →
          lapsed history = true ∧ ∃ expiry time, expiryOf token history = some expiry ∧
            expiry ≤ time ∧ (time, Event.lapse) ∈ history
  | .leased token expiry deliveries =>
      deliveries = History.deliveries history ∧ deliveries ≤ limit ∧ ¬ Completed history ∧
        lastToken history = some token ∧ expiryOf token history = some expiry ∧
        lapsed history = false
  | .finished _ => History.deliveries history ≤ limit

theorem agrees_step {limit : Nat} {history : History Token Result} {now : Int}
    {item next : Item Token Result} {event : Event Token Result}
    (agrees : Agrees limit history item) (moves : Step limit now item event next) :
    Agrees limit ((now, event) :: history) next := by
  cases moves with
  | deliver left =>
      obtain ⟨count, _, open_, _⟩ := agrees
      refine ⟨?_, left, not_completed_cons open_ (by simp), rfl, ?_, rfl⟩
      · simp [History.deliveries, numbers, deliveryNumber, count]
      · simp [expiryOf]
  | renew held =>
      obtain ⟨count, bound, open_, token, _, running⟩ := agrees
      refine ⟨?_, bound, not_completed_cons open_ (by simp), token, ?_, running⟩
      · simp [History.deliveries, numbers, deliveryNumber, count]
      · simp [expiryOf]
  | @lapse token expiry _ ranOut =>
      obtain ⟨count, bound, open_, newest, given, _⟩ := agrees
      refine ⟨?_, bound, not_completed_cons open_ (by simp), ?_⟩
      · simp [History.deliveries, numbers, deliveryNumber, count]
      · intro holder holderNewest
        have same : token = holder := by
          simpa [lastToken, newest] using holderNewest
        subst same
        exact ⟨rfl, expiry, now, by simpa [expiryOf] using given, ranOut, by simp⟩
  | complete held =>
      obtain ⟨count, bound, _⟩ := agrees
      simpa [Agrees, History.deliveries, numbers, deliveryNumber, count] using bound
  | exhaust used =>
      obtain ⟨count, bound, _⟩ := agrees
      simpa [Agrees, History.deliveries, numbers, deliveryNumber, count] using bound

theorem Lifecycle.agrees {limit : Nat} {history : History Token Result}
    {item : Item Token Result} (life : Lifecycle limit history item) :
    Agrees limit history item := by
  induction life with
  | new => exact ⟨rfl, Nat.zero_le _, by simp [Completed], by simp [lastToken]⟩
  | step _ moves ih => exact agrees_step ih moves

/-- An item is leased to a token exactly when that token is the newest, nothing
has finished the item, and the lease it was last given has not lapsed. -/
theorem Lifecycle.leased_iff {limit : Nat} {history : History Token Result}
    {item : Item Token Result} (life : Lifecycle limit history item)
    (token : Token) (expiry : Int) :
    (∃ deliveries, item = .leased token expiry deliveries) ↔
      lastToken history = some token ∧ expiryOf token history = some expiry ∧
        lapsed history = false ∧ ∀ result, item ≠ .finished result := by
  have agrees := life.agrees
  cases item with
  | ready deliveries =>
      obtain ⟨_, _, _, ranOut⟩ := agrees
      constructor
      · rintro ⟨_, impossible⟩
        cases impossible
      · rintro ⟨newest, _, running, _⟩
        rw [(ranOut token newest).1] at running
        cases running
  | leased holder given deliveries =>
      obtain ⟨_, _, _, newest, holderExpiry, running⟩ := agrees
      constructor
      · rintro ⟨_, same⟩
        cases same
        exact ⟨newest, holderExpiry, running, by simp⟩
      · rintro ⟨tokenNewest, tokenExpiry, _, _⟩
        have sameToken : holder = token := Option.some.inj (newest.symm.trans tokenNewest)
        subst sameToken
        have sameExpiry : given = expiry :=
          Option.some.inj (holderExpiry.symm.trans tokenExpiry)
        exact ⟨deliveries, by rw [sameExpiry]⟩
  | finished result =>
      constructor
      · rintro ⟨_, impossible⟩
        cases impossible
      · rintro ⟨_, _, _, unfinished⟩
        exact (unfinished result rfl).elim

/-- Deliveries never outnumber the limit. -/
theorem Lifecycle.deliveries_le {limit : Nat} {history : History Token Result}
    {item : Item Token Result} (life : Lifecycle limit history item) :
    History.deliveries history ≤ limit := by
  have agrees := life.agrees
  cases item with
  | ready deliveries => exact agrees.1 ▸ agrees.2.1
  | leased token expiry deliveries => exact agrees.1 ▸ agrees.2.1
  | finished result => exact agrees

/-- Deliveries are numbered from 1 on, without gaps. -/
theorem Lifecycle.numbers_eq {limit : Nat} {history : History Token Result}
    {item : Item Token Result} (life : Lifecycle limit history item) :
    (numbers history).reverse =
      (List.range (History.deliveries history)).map (fun (index : Nat) => (index : Int) + 1) := by
  induction life with
  | new => rfl
  | @step history item now event next past moves ih =>
      cases moves with
      | deliver left =>
          rw [deliveries_deliver, List.range_succ, List.map_append, ← ih]
          simp [numbers, deliveryNumber, past.agrees.1]
      | renew held => simpa [numbers, deliveryNumber, History.deliveries] using ih
      | lapse ranOut => simpa [numbers, deliveryNumber, History.deliveries] using ih
      | complete held => simpa [numbers, deliveryNumber, History.deliveries] using ih
      | exhaust used => simpa [numbers, deliveryNumber, History.deliveries] using ih

/-- A new delivery comes only after the previous holder's lease has run out, and
never after a completion. -/
theorem Lifecycle.deliver_excludes {limit : Nat} {history : History Token Result}
    {item : Item Token Result} {now expiry number : Int} {token : Token}
    (life : Lifecycle limit ((now, .deliver token expiry number) :: history) item)
    (ordered : Ordered ((now, .deliver token expiry number) :: history)) :
    ¬ Completed history ∧ ∀ holder, lastToken history = some holder →
      ∃ given, expiryOf holder history = some given ∧ given ≤ now := by
  cases life with
  | step past moves =>
      cases moves with
      | deliver left =>
          obtain ⟨_, _, open_, ranOut⟩ := past.agrees
          refine ⟨open_, ?_⟩
          intro holder newest
          obtain ⟨_, given, time, holderExpiry, reached, lapse⟩ := ranOut holder newest
          have earlier := (List.pairwise_cons.mp ordered).1 _ lapse
          exact ⟨given, holderExpiry, Int.le_trans reached earlier⟩

/-- Every delivery but the one under way has lapsed, as long as the item is not
finished. -/
def Balanced (history : History Token Result) : Item Token Result → Prop
  | .ready deliveries => lapses history = deliveries
  | .leased _ _ deliveries => lapses history + 1 = deliveries
  | .finished _ => True

omit [DecidableEq Token] in
theorem Lifecycle.balanced {limit : Nat} {history : History Token Result}
    {item : Item Token Result} (life : Lifecycle limit history item) :
    Balanced history item := by
  induction life with
  | new => rfl
  | step _ moves ih =>
      cases moves with
      | deliver left => simpa [Balanced, lapses, isLapse] using ih
      | renew held => simpa [Balanced, lapses, isLapse] using ih
      | lapse ranOut => simpa [Balanced, lapses, isLapse] using ih
      | complete held => trivial
      | exhaust used => trivial

omit [DecidableEq Token] in
/-- The older part of a history is a history. -/
theorem Lifecycle.older {limit : Nat} {newer older : History Token Result}
    {item : Item Token Result} (life : Lifecycle limit (newer ++ older) item) :
    ∃ past, Lifecycle limit older past := by
  induction newer generalizing item with
  | nil => exact ⟨item, life⟩
  | cons head newer ih =>
      cases life with
      | step past _ => exact ih past

omit [DecidableEq Token] in
theorem Lifecycle.exhausted {limit : Nat} {newer older : History Token Result}
    {item : Item Token Result} {now : Int} {result : Result}
    (life : Lifecycle limit (newer ++ (now, .exhaust result) :: older) item) :
    item = .finished result := by
  induction newer generalizing item with
  | nil =>
      cases life with
      | step past moves =>
          cases moves with
          | exhaust used => rfl
  | cons head newer ih =>
      cases life with
      | step past moves =>
          rw [ih past] at moves
          exact (not_step_finished moves).elim

omit [DecidableEq Token] in
/-- Nothing follows an exhaustion. -/
theorem Lifecycle.exhaust_newest {limit : Nat} {newer older : History Token Result}
    {item : Item Token Result} {now : Int} {result : Result}
    (life : Lifecycle limit (newer ++ (now, .exhaust result) :: older) item) : newer = [] := by
  cases newer with
  | nil => rfl
  | cons head newer =>
      cases life with
      | step past moves =>
          rw [past.exhausted] at moves
          exact (not_step_finished moves).elim

/-! ### Progress -/

/-- The deliveries that an item has left, and its exhaustion after them. -/
def Item.remaining (limit : Nat) : Item Token Result → Nat
  | .ready deliveries => limit + 1 - deliveries
  | .leased _ _ deliveries => limit + 1 - deliveries
  | .finished _ => 0

/-- An unfinished item has been delivered within the limit. -/
def Item.Within (limit : Nat) : Item Token Result → Prop
  | .ready deliveries => deliveries ≤ limit
  | .leased _ _ deliveries => deliveries ≤ limit
  | .finished _ => True

theorem Lifecycle.within {limit : Nat} {history : History Token Result}
    {item : Item Token Result} (life : Lifecycle limit history item) : item.Within limit := by
  have agrees := life.agrees
  cases item with
  | ready deliveries => exact agrees.2.1
  | leased token expiry deliveries => exact agrees.2.1
  | finished result => trivial

/-! ### Lost leases -/

/-- The holder of the token can no longer act at this clock reading. -/
def Lost (token : Token) (now : Int) : Item Token Result → Prop
  | .leased holder expiry _ => holder = token → expiry ≤ now
  | _ => True

omit [DecidableEq Token] in
theorem Lost.later {token : Token} {earlier now : Int} {item : Item Token Result}
    (lost : Lost token earlier item) (ordered : earlier ≤ now) : Lost token now item := by
  cases item with
  | leased holder expiry deliveries => exact fun same => Int.le_trans (lost same) ordered
  | ready deliveries => trivial
  | finished result => trivial

omit [DecidableEq Token] in
/-- A lost lease never comes back to its token; only a new delivery could draw
the token again. -/
theorem lost_step {limit : Nat} {now : Int} {token : Token} {item next : Item Token Result}
    {event : Event Token Result} (lost : Lost token now item)
    (moves : Step limit now item event next)
    (fresh : ∀ expiry number, event ≠ .deliver token expiry number) :
    Lost token now next := by
  cases moves with
  | deliver left => exact fun same => (fresh _ _ (congrArg (Event.deliver · _ _) same)).elim
  | renew held => exact fun same => (Int.not_lt.mpr (lost same) held).elim
  | lapse ranOut => trivial
  | complete held => trivial
  | exhaust used => trivial

omit [DecidableEq Token] in
theorem lost_steps {limit : Nat} {now : Int} {token : Token} {item next : Item Token Result}
    {events : List (Event Token Result)} (lost : Lost token now item)
    (moves : Steps limit now item events next)
    (fresh : ∀ expiry number, Event.deliver token expiry number ∉ events) :
    Lost token now next := by
  induction moves with
  | nil => exact lost
  | cons first rest ih =>
      apply ih
      · apply lost_step lost first
        rintro expiry number rfl
        exact fresh expiry number List.mem_cons_self
      · intro expiry number member
        exact fresh expiry number (List.mem_cons_of_mem _ member)

/-! ### Kept leases -/

omit [DecidableEq Token] in
/-- An item that is delivered, and not completed at once, is leased. -/
theorem steps_delivered {limit : Nat} {now expiry number : Int} {token : Token}
    {item next : Item Token Result} {before after : List (Event Token Result)}
    (moves : Steps limit now item (before ++ .deliver token expiry number :: after) next)
    (idle : ∀ event ∈ after, ∃ result, event = .exhaust result) :
    ∃ deliveries, next = .leased token expiry deliveries := by
  induction before generalizing item with
  | nil =>
      cases moves with
      | cons first rest =>
          cases first with
          | deliver left =>
              cases rest with
              | nil => exact ⟨_, rfl⟩
              | cons second _ =>
                  obtain ⟨result, rfl⟩ := idle _ List.mem_cons_self
                  cases second
  | cons event before ih =>
      cases moves with
      | cons first rest => exact ih rest

omit [DecidableEq Token] in
/-- While a lease runs, nobody but its holder does anything to the item. -/
theorem held_steps {limit : Nat} {now expiry : Int} {token : Token} {deliveries : Nat}
    {next : Item Token Result} {events : List (Event Token Result)} (held : now < expiry)
    (moves : Steps limit now (.leased token expiry deliveries) events next) :
    (events = [] ∧ next = .leased token expiry deliveries) ∨
      (∃ given rest, events = .renew token given :: rest ∧
        Steps limit now (.leased token given deliveries) rest next) ∨
      ∃ result, events = [.complete token result] ∧ next = .finished result := by
  cases moves with
  | nil => exact .inl ⟨rfl, rfl⟩
  | @cons _ event middle rest _ first later =>
      cases first with
      | @renew _ _ _ given _ => exact .inr (.inl ⟨given, rest, rfl, later⟩)
      | @complete _ _ _ result _ =>
          obtain ⟨rfl, rfl⟩ := steps_finished later
          exact .inr (.inr ⟨result, rfl, rfl⟩)
      | lapse ranOut => exact (Int.not_lt.mpr ranOut held).elim

omit [DecidableEq Token] in
/-- What is not done in the name of the holder leaves a lease that runs as it is. -/
theorem held_steps_of_others {limit : Nat} {now expiry : Int} {token : Token} {deliveries : Nat}
    {next : Item Token Result} {events : List (Event Token Result)} (held : now < expiry)
    (others : ∀ event ∈ events,
      (∀ given, event ≠ .renew token given) ∧ ∀ result, event ≠ .complete token result)
    (moves : Steps limit now (.leased token expiry deliveries) events next) :
    events = [] ∧ next = .leased token expiry deliveries := by
  rcases held_steps held moves with same | ⟨given, rest, rfl, _⟩ | ⟨result, rfl, _⟩
  · exact same
  · exact ((others _ List.mem_cons_self).1 given rfl).elim
  · exact ((others _ List.mem_cons_self).2 result rfl).elim

end Lease
