import SkAsync.Buffer.Circular.Commit
import SkAsync.Channel.BufferedPump
import SkAsync.Channel.WriteAll
import SkAsync.Channel.EndOfFile
import SkAsync.Buffer.ReadableRange
import SkAsync.Buffer.Dynamic.ZeroCopy
import SkAsync.Buffer.Dynamic.Recycling
import SkAsync.Executor
import SkAsync.Task.Progress
import SkAsync.Reactor
import SkAsync.Posix.FileIo
import SkAsync.Posix.UniqueFd
import SkAsync.Posix.EpollReactor
import SkAsync.Posix.IoUring
import SkAsync.Posix.FileChannel
import SkAsync.Posix.Resumption
import SkAsync.Net.Inet6.Completeness
import SkAsync.Net.Inet6.Storage
import SkAsync.Net.Unix
import SkAsync.Net.Uri.RawText
import SkAsync.Patricia.PrefixMatch
import SkAsync.Patricia.Canonical
import SkAsync.Patricia.OrderedIteration
import SkAsync.Patricia.ExactRemoval
import SkAsync.Patricia.PostIncrement
import SkAsync.Patricia.DeletionLog
import SkAsync.Patricia.Objects
import SkAsync.Executor.Rest
