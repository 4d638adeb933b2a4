/-
# Failures that are no I/O errors

Commits and creations report few failures besides those of I/O operations: a target without a
file name, a configuration that is refused, and live rows that have no snapshot.
-/

import Pari.Store.Canonical

namespace Pari.Store

open Data Pari.Format Pari.Core Pari.Index

def StoreError.IsIo : StoreError → Prop
  | .io _ => True
  | .format _ | .layout _ | .bucket _ | .index _ | .invalidSnapshot _ | .duplicateKey _
  | .incompatibleSeed _ _ | .incompatiblePermutationCount _ _ | .lengthOverflow | .invalidPath =>
      False

section TemporaryFiles

variable {temporary : OwnedTemporaryFile} {target : Path} {world world' : World} {error : StoreError}

end TemporaryFiles

namespace PersistentIndexCore

section Failures

variable {scheme : SignatureScheme} {crc : Checksum} {core core' : PersistentIndexCore scheme}
  {world world' : World} {error : StoreError}

end Failures

end PersistentIndexCore

end Pari.Store
