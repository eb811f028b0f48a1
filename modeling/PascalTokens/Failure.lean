/-! Failures of input and output. -/
namespace PascalTokens

inductive FailureKind
  | notFound | permissionDenied | connectionRefused | connectionReset | hostUnreachable
  | networkUnreachable | connectionAborted | notConnected | addrInUse | addrNotAvailable
  | networkDown | brokenPipe | alreadyExists | wouldBlock | notADirectory | isADirectory
  | directoryNotEmpty | readOnlyFilesystem | filesystemLoop | staleNetworkFileHandle
  | invalidInput | invalidData | timedOut | writeZero | storageFull | notSeekable | quotaExceeded
  | fileTooLarge | resourceBusy | executableFileBusy | deadlock | crossesDevices | tooManyLinks
  | invalidFilename | argumentListTooLong | interrupted | unsupported | unexpectedEof
  | outOfMemory | inProgress | other | uncategorized
  deriving DecidableEq

namespace FailureKind

def all : List FailureKind :=
  [notFound, permissionDenied, connectionRefused, connectionReset, hostUnreachable,
   networkUnreachable, connectionAborted, notConnected, addrInUse, addrNotAvailable, networkDown,
   brokenPipe, alreadyExists, wouldBlock, notADirectory, isADirectory, directoryNotEmpty,
   readOnlyFilesystem, filesystemLoop, staleNetworkFileHandle, invalidInput, invalidData,
   timedOut, writeZero, storageFull, notSeekable, quotaExceeded, fileTooLarge, resourceBusy,
   executableFileBusy, deadlock, crossesDevices, tooManyLinks, invalidFilename,
   argumentListTooLong, interrupted, unsupported, unexpectedEof, outOfMemory, inProgress, other,
   uncategorized]

def name : FailureKind → String
  | notFound => "NotFound"
  | permissionDenied => "PermissionDenied"
  | connectionRefused => "ConnectionRefused"
  | connectionReset => "ConnectionReset"
  | hostUnreachable => "HostUnreachable"
  | networkUnreachable => "NetworkUnreachable"
  | connectionAborted => "ConnectionAborted"
  | notConnected => "NotConnected"
  | addrInUse => "AddrInUse"
  | addrNotAvailable => "AddrNotAvailable"
  | networkDown => "NetworkDown"
  | brokenPipe => "BrokenPipe"
  | alreadyExists => "AlreadyExists"
  | wouldBlock => "WouldBlock"
  | notADirectory => "NotADirectory"
  | isADirectory => "IsADirectory"
  | directoryNotEmpty => "DirectoryNotEmpty"
  | readOnlyFilesystem => "ReadOnlyFilesystem"
  | filesystemLoop => "FilesystemLoop"
  | staleNetworkFileHandle => "StaleNetworkFileHandle"
  | invalidInput => "InvalidInput"
  | invalidData => "InvalidData"
  | timedOut => "TimedOut"
  | writeZero => "WriteZero"
  | storageFull => "StorageFull"
  | notSeekable => "NotSeekable"
  | quotaExceeded => "QuotaExceeded"
  | fileTooLarge => "FileTooLarge"
  | resourceBusy => "ResourceBusy"
  | executableFileBusy => "ExecutableFileBusy"
  | deadlock => "Deadlock"
  | crossesDevices => "CrossesDevices"
  | tooManyLinks => "TooManyLinks"
  | invalidFilename => "InvalidFilename"
  | argumentListTooLong => "ArgumentListTooLong"
  | interrupted => "Interrupted"
  | unsupported => "Unsupported"
  | unexpectedEof => "UnexpectedEof"
  | outOfMemory => "OutOfMemory"
  | inProgress => "InProgress"
  | other => "Other"
  | uncategorized => "Uncategorized"

def ofName? (s : String) : Option FailureKind := all.find? (·.name == s)

end FailureKind

structure Failure where
  kind : FailureKind
  reason : String
  deriving DecidableEq

namespace Failure

def notFound : Failure := ⟨.notFound,"No such file or directory (os error 2)"⟩
def notADirectory : Failure := ⟨.notADirectory,"Not a directory (os error 20)"⟩
def isADirectory : Failure := ⟨.isADirectory,"Is a directory (os error 21)"⟩
def noSpace : Failure := ⟨.storageFull,"No space left on device (os error 28)"⟩
def nameTooLong : Failure := ⟨.invalidFilename,"File name too long (os error 36)"⟩
def permissionDenied : Failure := ⟨.permissionDenied,"Permission denied (os error 13)"⟩
def nulInPath : Failure := ⟨.invalidInput,"file name contained an unexpected NUL byte"⟩

end Failure

end PascalTokens
